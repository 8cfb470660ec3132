import Cppcms.Base.Numbers
import Cppcms.Base.Outcome
import Cppcms.Base.Probing
import Cppcms.Base.Strings
import Cppcms.Library.SortedMap
import Cppcms.Library.Terminated

/-!
# SCGI

`make_scgi_header` of `forwarder.cpp`, which passes the environment of a request on to another
server, and the reader of `scgi_api.cpp`.
-/

namespace Cppcms

namespace Cgi

/-- `CONTENT_LENGTH`. -/
def contentLengthName : Bytes := bytes "CONTENT_LENGTH"

/-! ## Writing -/

/-- The variables in the order in which they are sent. -/
def scgiPairs (env : SortedMap Bytes Bytes) : List (Bytes × Bytes) :=
  (contentLengthName, (env.find contentLengthName).getD (bytes "0")) ::
    env.toList.filter fun x => x.1 ≠ contentLengthName

/-- The zero behind a string is sent with it. -/
def scgiText (pairs : List (Bytes × Bytes)) : Bytes :=
  pairs.flatMap fun x => x.1 ++ [0] ++ (x.2 ++ [0])

/-- `env_str` of `make_scgi_header`. -/
def scgiEnvStr (env : SortedMap Bytes Bytes) : Bytes := scgiText (scgiPairs env)

def makeScgiHeader (env : SortedMap Bytes Bytes) : Bytes :=
  showNat (scgiEnvStr env).length ++ [Ch.colon] ++ scgiEnvStr env ++ [0x2C]

/-! ## Reading -/

inductive ScgiError where
  | protocolViolation
  | eof
  deriving DecidableEq, Repr

/-- `async_read`: `n` octets of the stream, and what is left of it. -/
def asyncRead (n : ℕ) (s : Bytes) : Except ScgiError (Bytes × Bytes) :=
  if n ≤ s.length then .ok (s.take n, s.drop n) else .error .eof

/-- `atoi`: the number is cut to 32 bits. -/
def atoi (s : Bytes) : ℤ := (atoll s).bmod (2 ^ 32)

/-- `on_first_read`: `sep_`, and the size that the buffer gets. -/
def onFirstRead (buffer : Bytes) : Except ScgiError (ℕ × ℕ) :=
  let sep := buffer.idxOf Ch.colon
  if 16 ≤ sep then .error .protocolViolation
  else
    let len := atoi (buffer.set sep 0)
    if len < 0 ∨ 16384 < len then .error .protocolViolation
    else if sep + 2 + len.toNat ≤ buffer.length then .error .protocolViolation
    else .ok (sep, sep + 2 + len.toNat)

/-- The C string at a pointer, and what is behind its zero.  The buffer may have no zero. -/
def readCString (p : Bytes) : Outcome (Bytes × Bytes) :=
  if 0 ∈ p then .returns (p.takeWhile (· ≠ 0), (p.dropWhile (· ≠ 0)).tail) else .undefined

/-- `env_.add`, which returns if there is a free slot. -/
def envAdd (env : StringMap) (key value : Bytes) : Outcome StringMap :=
  match env.add key value with
  | none => .undefined
  | some env => .returns env

/-- The loop of `on_headers_chunk_read`; `p` is what is left of the buffer, with its last octet. -/
def readPairs : ℕ → Bytes → StringMap → Outcome StringMap
  | 0, _, env => .returns env
  | fuel + 1, p, env =>
    if p.length ≤ 1 then .returns env
    else do
      let key ← readCString p
      if key.2.length ≤ 1 then .returns env
      else do
        let value ← readCString key.2
        let env ← envAdd env key.1 value.1
        readPairs fuel value.2 env

/-- `on_headers_chunk_read`. -/
def onHeadersChunkRead (sep : ℕ) (buffer : Bytes) : Outcome (Except ScgiError StringMap) :=
  if buffer.getLast? ≠ some 0x2C then .returns (.error .protocolViolation)
  else do
    let env ← readPairs buffer.length (buffer.drop (sep + 1)) .init
    return .ok env

/-- `async_read_headers` on a stream: the environment, and what is left of the stream. -/
def readHeaders (stream : Bytes) : Outcome (Except ScgiError (StringMap × Bytes)) :=
  match asyncRead 16 stream with
  | .error e => .returns (.error e)
  | .ok (first, stream) =>
    match onFirstRead first with
    | .error e => .returns (.error e)
    | .ok (sep, size) =>
      match asyncRead (size - 16) stream with
      | .error e => .returns (.error e)
      | .ok (more, stream) => do
        let env ← onHeadersChunkRead sep (first.set sep 0 ++ more)
        return env.map fun env => (env, stream)

/-- `connection::getenv`: all variables as a map. -/
def getenv (env : StringMap) : Option (SortedMap Bytes Bytes) :=
  (StringMap.iterate env.data env.data.length env.first).map fun cells =>
    cells.foldl (fun m x => m.insert x.2.key x.2.value) ∅

/-- The environment that a server gets. -/
def withContentLength (env : SortedMap Bytes Bytes) : SortedMap Bytes Bytes :=
  env.insertNew contentLengthName (bytes "0")

/-! ## The round trip -/

lemma readCString_append {s : Bytes} (hs : 0 ∉ s) (p : Bytes) :
    readCString (s ++ 0 :: p) = .returns (s, p) := by
  have hpos : ∀ c ∈ s, decide (c ≠ 0) = true := fun c hc => decide_eq_true fun h => hs (h ▸ hc)
  unfold readCString
  rw [if_pos (List.mem_append_right _ List.mem_cons_self), List.takeWhile_append_of_pos hpos,
    List.takeWhile_cons_of_neg (by decide), List.dropWhile_append_of_pos hpos,
    List.dropWhile_cons_of_neg (by decide), List.append_nil, List.tail_cons]

lemma length_le_scgiText (pairs : List (Bytes × Bytes)) :
    pairs.length ≤ (scgiText pairs).length := by
  induction pairs with
  | nil => exact Nat.le_refl _
  | cons x pairs ih =>
    unfold scgiText at ih ⊢
    rw [List.flatMap_cons]
    simp only [List.length_append, List.length_cons, List.length_nil]
    omega

/-- Pairs without zeros are added one after the other. -/
lemma readPairs_flatMap {pairs : List (Bytes × Bytes)} (hpairs : ∀ x ∈ pairs, 0 ∉ x.1 ∧ 0 ∉ x.2)
    {env env' : StringMap} (hadd : env.addAll pairs = some env') {fuel : ℕ}
    (hfuel : pairs.length ≤ fuel) (c : UInt8) :
    readPairs fuel (scgiText pairs ++ [c]) env = .returns env' := by
  induction pairs generalizing env fuel with
  | nil =>
    cases hadd
    rcases fuel with _ | fuel
    · rfl
    · rfl
  | cons x pairs ih =>
    rcases fuel with _ | fuel
    · exact absurd hfuel (Nat.not_succ_le_zero _)
    have hx := hpairs x List.mem_cons_self
    have htext : scgiText (x :: pairs) ++ [c] = x.1 ++ 0 ::
        (x.2 ++ 0 :: (scgiText pairs ++ [c])) := by
      unfold scgiText
      rw [List.flatMap_cons]
      simp only [List.append_assoc, List.cons_append, List.nil_append]
    rcases hone : env.add x.1 x.2 with _ | env₁
    · rw [StringMap.addAll, List.foldlM_cons, hone] at hadd
      cases hadd
    rw [StringMap.addAll, List.foldlM_cons, hone] at hadd
    have hrest := ih (fun y hy => hpairs y (List.mem_cons_of_mem _ hy)) hadd
      (Nat.le_of_succ_le_succ hfuel)
    rw [htext, readPairs]
    have hpos : 0 < (scgiText pairs ++ [c]).length := by
      rw [List.length_append]
      exact Nat.add_pos_right _ Nat.one_pos
    generalize scgiText pairs ++ [c] = rest at hrest hpos
    have hlength : ¬ (x.1 ++ 0 :: (x.2 ++ 0 :: rest)).length ≤ 1 := by
      simp only [List.length_append, List.length_cons]
      omega
    have hvalue : ¬ (x.2 ++ 0 :: rest).length ≤ 1 := by
      rw [List.length_append, List.length_cons]
      omega
    rw [if_neg hlength, readCString_append hx.1, Outcome.returns_bind]
    dsimp only
    rw [if_neg hvalue, readCString_append hx.2, Outcome.returns_bind, envAdd, hone]
    exact hrest

/-! ### The environment -/

variable {env : SortedMap Bytes Bytes}

/-- A map that holds pairs with different names is the map of these pairs. -/
lemma getenv_of_holds {m : StringMap} {order : List (Bytes × Bytes)} (h : m.Holds order)
    (hdistinct : (order.map Prod.fst).Nodup)
    (henv : ∀ key value, env.find key = some value ↔ (key, value) ∈ order) :
    getenv m = some env ∧ ∀ key, m.get key = some (env.find key) := by
  constructor
  · rcases h.table with ⟨cells, htable, hcells⟩
    have hlength := StringMap.length_of_table hcells
    have hhalf := h.half
    have htotal := h.total
    have hfuel : cells.length ≤ m.data.length := by omega
    have hiterate := htable.linked.iterate hfuel
    have hpairs : cells.map StringMap.pair = order.reverse := by rw [← hcells, List.reverse_reverse]
    have hfold : (cells.foldl (fun m x => m.insert x.2.key x.2.value) ∅ : SortedMap Bytes Bytes) =
        order.reverse.foldl (fun m x => m.insert x.1 x.2) ∅ := by
      rw [← hpairs, List.foldl_map]
      rfl
    unfold getenv
    rw [hiterate, Option.map_some, hfold]
    congr 1
    apply SortedMap.ext
    intro key
    apply Option.ext
    intro value
    rw [SortedMap.find_foldl_insert, henv, List.mem_reverse]
    · constructor
      · rintro (hmem | ⟨hempty, -⟩)
        · exact hmem
        · cases hempty
      · exact .inl
    · rw [List.map_reverse]
      exact List.nodup_reverse.2 hdistinct
  · intro key
    rw [h.get key]
    congr 1
    apply Option.ext
    intro value
    rw [henv]
    exact find?_key_eq_some hdistinct

lemma mem_scgiPairs {key value : Bytes} :
    (withContentLength env).find key = some value ↔ (key, value) ∈ scgiPairs env := by
  unfold withContentLength scgiPairs
  rw [SortedMap.find_insertNew, List.mem_cons, List.mem_filter, ← SortedMap.find_eq_some]
  by_cases hkey : key = contentLengthName
  · rw [if_pos hkey]
    constructor
    · intro h
      rw [hkey, ← Option.some.inj h]
      exact .inl rfl
    · rintro (h | ⟨-, h⟩)
      · rw [(Prod.mk.inj h).2]
      · exact absurd hkey (of_decide_eq_true h)
  · rw [if_neg hkey]
    constructor
    · exact fun h => .inr ⟨h, decide_eq_true hkey⟩
    · rintro (h | ⟨h, -⟩)
      · exact absurd (Prod.mk.inj h).1 hkey
      · exact h

lemma nodup_scgiPairs (env : SortedMap Bytes Bytes) : ((scgiPairs env).map Prod.fst).Nodup := by
  unfold scgiPairs
  rw [List.map_cons, List.nodup_cons]
  constructor
  · intro hmem
    rcases List.mem_map.1 hmem with ⟨x, hx, heq⟩
    exact of_decide_eq_true (List.mem_filter.1 hx).2 heq
  · rw [List.nodup_iff_pairwise_ne, List.pairwise_map]
    exact (env.sorted.imp fun h => h.ne).filter _

/-! ### The stream -/

/-- The name and the two zeros take sixteen octets already. -/
lemma length_scgiEnvStr (env : SortedMap Bytes Bytes) : 16 ≤ (scgiEnvStr env).length := by
  have hname : contentLengthName.length = 14 := rfl
  unfold scgiEnvStr scgiPairs scgiText
  rw [List.flatMap_cons]
  simp only [List.length_append, List.length_cons, List.length_nil]
  omega

lemma length_showNat_le {n : ℕ} (hn : n ≤ 16384) : (showNat n).length ≤ 5 := by
  unfold showNat
  rw [List.length_map]
  exact Nat.toDigits_length 10 n 5 (by decide) (by omega)

/-- The header with the colon replaced. -/
lemma set_makeScgiHeader (env : SortedMap Bytes Bytes) :
    (makeScgiHeader env).set (showNat (scgiEnvStr env).length).length 0 =
      showNat (scgiEnvStr env).length ++ 0 :: (scgiEnvStr env ++ [0x2C]) := by
  unfold makeScgiHeader
  simp only [List.append_assoc, List.cons_append, List.nil_append]
  rw [List.set_append_right _ _ (Nat.le_refl _), Nat.sub_self, List.set_cons_zero]

/-- The first sixteen octets tell how long the header is. -/
lemma onFirstRead_take (hsize : (scgiEnvStr env).length ≤ 16384) (body : Bytes) :
    onFirstRead ((makeScgiHeader env ++ body).take 16) =
      .ok ((showNat (scgiEnvStr env).length).length, (makeScgiHeader env).length) := by
  have hlow := length_scgiEnvStr env
  have hdigits := length_showNat_le hsize
  have hheader : (makeScgiHeader env).length = (showNat (scgiEnvStr env).length).length + 2 +
      (scgiEnvStr env).length := by
    unfold makeScgiHeader
    simp only [List.length_append, List.length_cons, List.length_nil]
    omega
  have hfirst : (makeScgiHeader env ++ body).take 16 = showNat (scgiEnvStr env).length ++
      Ch.colon :: (scgiEnvStr env ++ [0x2C] ++ body).take
        (15 - (showNat (scgiEnvStr env).length).length) := by
    have hroom : 16 - (showNat (scgiEnvStr env).length).length =
        15 - (showNat (scgiEnvStr env).length).length + 1 := by omega
    unfold makeScgiHeader
    simp only [List.append_assoc, List.cons_append, List.nil_append]
    rw [List.take_append, List.take_of_length_le (by omega), hroom, List.take_succ_cons]
  have hlength : ((makeScgiHeader env ++ body).take 16).length = 16 := by
    rw [List.length_take, List.length_append]
    omega
  have hcolon : Ch.colon ∉ showNat (scgiEnvStr env).length := fun h =>
    absurd (isDigit_of_mem_showNat h) (by decide)
  unfold onFirstRead
  rw [hlength, hfirst]
  generalize (scgiEnvStr env ++ [0x2C] ++ body).take _ = rest
  rw [List.idxOf_append_of_notMem hcolon, List.idxOf_cons_self, Nat.add_zero]
  dsimp only
  rw [List.set_append_right _ _ (Nat.le_refl _), Nat.sub_self, List.set_cons_zero]
  have hatoi : atoi (showNat (scgiEnvStr env).length ++ 0 :: rest) = (scgiEnvStr env).length := by
    unfold atoi
    rw [atoll_showNat_append _ fun c hc => by cases hc; rfl, min_eq_right (by omega),
      Int.bmod_eq_of_le (by omega) (by omega)]
  rw [hatoi, Int.toNat_natCast, if_neg (by omega), if_neg (by omega), if_neg (by omega), hheader]

lemma zero_notMem_scgiPairs (henv : ∀ x ∈ env.toList, 0 ∉ x.1 ∧ 0 ∉ x.2) :
    ∀ x ∈ scgiPairs env, 0 ∉ x.1 ∧ 0 ∉ x.2 := by
  intro x hx
  rcases List.mem_cons.1 hx with rfl | hx
  · have hname : 0 ∉ contentLengthName := by decide
    refine ⟨hname, ?_⟩
    rcases hfind : env.find contentLengthName with _ | value
    · exact (by decide : 0 ∉ bytes "0")
    · exact (henv _ (SortedMap.find_eq_some.1 hfind)).2
  · exact henv x (List.mem_of_mem_filter hx)

/-- The reader gets the environment of the writer, with a `CONTENT_LENGTH`, and leaves the body in
the stream. -/
theorem readHeaders_makeScgiHeader {env : SortedMap Bytes Bytes}
    (henv : ∀ x ∈ env.toList, 0 ∉ x.1 ∧ 0 ∉ x.2) (hsize : (scgiEnvStr env).length ≤ 16384)
    (body : Bytes) :
    ∃ m, readHeaders (makeScgiHeader env ++ body) = .returns (.ok (m, body)) ∧
      getenv m = some (withContentLength env) ∧
      ∀ key, m.get key = some ((withContentLength env).find key) := by
  rcases StringMap.holds_init.addAll (scgiPairs env) with ⟨m, hadd, hholds⟩
  have hperm : ((scgiPairs env).foldl StringMap.addOrder []).Perm (scgiPairs env) :=
    StringMap.foldl_addOrder_perm [] (scgiPairs env)
  have hlow := length_scgiEnvStr env
  have hheader : (makeScgiHeader env).length = (showNat (scgiEnvStr env).length).length + 2 +
      (scgiEnvStr env).length := by
    unfold makeScgiHeader
    simp only [List.length_append, List.length_cons, List.length_nil]
    omega
  refine ⟨m, ?_, getenv_of_holds hholds ?_ ?_⟩
  · have hread : asyncRead 16 (makeScgiHeader env ++ body) =
        .ok ((makeScgiHeader env ++ body).take 16, (makeScgiHeader env ++ body).drop 16) := by
      apply if_pos
      rw [List.length_append]
      omega
    have hmore : asyncRead ((makeScgiHeader env).length - 16)
      ((makeScgiHeader env ++ body).drop 16) =
        .ok ((makeScgiHeader env).drop 16, body) := by
      have hroom : (makeScgiHeader env).length - 16 ≤
          ((makeScgiHeader env ++ body).drop 16).length := by
        rw [List.length_drop, List.length_append]
        omega
      have hsplit : (makeScgiHeader env ++ body).drop 16 = (makeScgiHeader env).drop 16 ++ body :=
        List.drop_append_of_le_length (by omega)
      unfold asyncRead
      rw [if_pos hroom, hsplit, List.take_left' List.length_drop, List.drop_left' List.length_drop]
    -- both parts of the buffer together are the header
    have hbuffer : ((makeScgiHeader env ++ body).take 16).set
      (showNat (scgiEnvStr env).length).length 0 ++
        (makeScgiHeader env).drop 16 = showNat (scgiEnvStr env).length ++ 0 ::
        (scgiEnvStr env ++ [0x2C]) := by
      have hdigits := length_showNat_le hsize
      have hsep : (showNat (scgiEnvStr env).length).length <
          ((makeScgiHeader env).take 16).length := by
        rw [List.length_take]
        omega
      rw [List.take_append_of_le_length (by omega), ← List.set_append_left _ _ hsep,
        List.take_append_drop, set_makeScgiHeader]
    have hchunk : onHeadersChunkRead (showNat (scgiEnvStr env).length).length
        (showNat (scgiEnvStr env).length ++ 0 :: (scgiEnvStr env ++ [0x2C])) =
          .returns (.ok m) := by
      have hlast : (showNat (scgiEnvStr env).length ++ 0 :: (scgiEnvStr env ++ [0x2C])).getLast? =
          some 0x2C := by
        rw [← List.cons_append, ← List.append_assoc, List.getLast?_append]
        rfl
      have hdrop : (showNat (scgiEnvStr env).length ++ 0 :: (scgiEnvStr env ++ [0x2C])).drop
          ((showNat (scgiEnvStr env).length).length + 1) = scgiText (scgiPairs env) ++ [0x2C] := by
        rw [List.drop_length_add_append]
        rfl
      have hfuel : (scgiPairs env).length ≤
          (showNat (scgiEnvStr env).length ++ 0 :: (scgiEnvStr env ++ [0x2C])).length := by
        have hle := length_le_scgiText (scgiPairs env)
        rw [List.length_append, List.length_cons, List.length_append]
        unfold scgiEnvStr
        omega
      unfold onHeadersChunkRead
      rw [if_neg (not_not.2 hlast), hdrop,
        readPairs_flatMap (zero_notMem_scgiPairs henv) hadd hfuel]
      rfl
    unfold readHeaders
    rw [hread]
    dsimp only
    rw [onFirstRead_take hsize]
    dsimp only
    rw [hmore]
    dsimp only
    rw [hbuffer, hchunk]
    rfl
  · exact (hperm.map Prod.fst).nodup_iff.2 (nodup_scgiPairs env)
  · intro key value
    rw [mem_scgiPairs, hperm.mem_iff]

/-- A request for `/` without a body. -/
theorem readHeaders_makeScgiHeader_uri :
    ∃ m, readHeaders
      (makeScgiHeader (((∅ : SortedMap Bytes Bytes).insert (bytes "REQUEST_URI") (bytes "/")).insert
        (bytes "CONTENT_LENGTH") (bytes "2")) ++ bytes "ab") = .returns (.ok (m, bytes "ab")) ∧
      m.get (bytes "REQUEST_URI") = some (some (bytes "/")) ∧
        m.get (bytes "CONTENT_LENGTH") = some (some (bytes "2")) ∧
      m.get (bytes "PATH_INFO") = some none := by
  obtain ⟨m, hread, -, hget⟩ :=
    @readHeaders_makeScgiHeader (((∅ : SortedMap Bytes Bytes).insert (bytes "REQUEST_URI")
      (bytes "/")).insert (bytes "CONTENT_LENGTH") (bytes "2")) (by decide) (by decide) (bytes "ab")
  exact ⟨m, hread, (hget _).trans (by decide), (hget _).trans (by decide),
    (hget _).trans (by decide)⟩

end Cgi

end Cppcms
