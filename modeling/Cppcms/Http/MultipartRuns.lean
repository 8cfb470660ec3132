import Cppcms.Http.Multipart

/-!
# Runs of the multipart parser

The parser reads octet by octet, whatever the pieces are in which it gets them: `advance` is what
octets do to the parser as long as nothing is wrong and the content goes on.
-/

namespace Cppcms

namespace Http

open Multipart

/-! ## What is written to a file -/

namespace HttpFile

/-- Octets are written behind the others. -/
def append (f : HttpFile) (s : Bytes) : HttpFile :=
  { f with
    data := ⟨f.data.written ++ s, f.data.cursor, by
      rw [List.length_append]
      exact Nat.le_add_right_of_le f.data.cursor_le⟩ }

lemma append_nil (f : HttpFile) : f.append [] = f := by
  rcases f with ⟨name, mime, filename, ⟨written, cursor, hle⟩⟩
  simp only [append, List.append_nil]

lemma append_append (f : HttpFile) (s t : Bytes) : (f.append s).append t = f.append (s ++ t) := by
  simp only [append, List.append_assoc]

/-- There is always room. -/
lemma sputc_eq (f : HttpFile) (c : UInt8) : f.sputc c = (f.append [c], true) := by
  have hdone : ((f.data.step (.write c)).2 = .done true) = True := eq_self _
  unfold sputc
  simp only [hdone, decide_true]
  rfl

lemma sputn_eq (f : HttpFile) (s : Bytes) : f.sputn s = (f.append s, s.length) := by
  induction s generalizing f with
  | nil => rw [sputn, append_nil, List.length_nil]
  | cons c s ih =>
    rw [sputn, sputc_eq]
    dsimp only
    rw [ih, append_append, List.length_cons]
    rfl

lemma rewind_append (f : HttpFile) (s : Bytes) (hcursor : f.data.cursor = 0) :
    (f.append s).rewind = f.append s := by
  rcases f with ⟨name, mime, filename, ⟨written, cursor, hle⟩⟩
  subst hcursor
  unfold rewind
  simp only [append, Spool.step, Spool.seek]
  rfl

end HttpFile

namespace MultipartParser

/-! ## Octet by octet -/

/-- What an octet does to the parser, if the content goes on behind it. -/
def advanceOctet (c : UInt8) (p : MultipartParser) : Option MultipartParser :=
  match p.step c false with
  | .next p => some p
  | .past p r => if r.isOk then some p else none
  | .stop _ _ => none

/-- What octets do to the parser, if the content goes on behind them. -/
def advance (p : MultipartParser) : Bytes → Option MultipartParser
  | [] => some p
  | c :: s => (p.advanceOctet c).bind fun p => p.advance s

lemma advance_append (p : MultipartParser) (s t : Bytes) :
    p.advance (s ++ t) = (p.advance s).bind fun p => p.advance t := by
  induction s generalizing p with
  | nil => rfl
  | cons c s ih =>
    rw [List.cons_append, advance, advance]
    rcases p.advanceOctet c with _ | p
    · rfl
    · exact ih p

lemma advance_append_of_eq {p q : MultipartParser} {s : Bytes} (h : p.advance s = some q)
    (t : Bytes) :
    p.advance (s ++ t) = q.advance t := by
  rw [advance_append, h]
  rfl

/-- A file is ready while its octets are read. -/
def FileState (p : MultipartParser) : Prop :=
  p.fileIsReady = true ↔ p.state = .expectingSeparatorBoundary

end MultipartParser

end Http

end Cppcms
