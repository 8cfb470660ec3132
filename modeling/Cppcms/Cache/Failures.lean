import Cppcms.Cache.Runs
import Cppcms.Library.Machine

/-!
# Allocations that fail

Every allocation in `store` may fail.  A failure while the data are copied ends the call.  After a
failure at any later place `nl_clear` clears the cache, and it allocates, too: the tables of both
maps get a new size.  If that fails the exception leaves `store`, and the triggers or the counters
stay as they are.

Allocations of one statement that leave the same state are one place here.  The counters may be
wrong after a failure, so that the containers are compared with the counters set right (`recount`).
-/

namespace Cppcms

namespace Cache

/-- The places in `store` where an allocation may fail.  The triggers are numbered in the order in
which they are added. -/
inductive Place where
  | copyData
  | copyKey
  | insertPrimary
  | pushLru
  | insertTimeout
  | copyTrigger (i : ℕ)
  | insertTrigger (i : ℕ)
  | pushCell (i : ℕ)
  | pushTrigger (i : ℕ)
  | rehashPrimary
  | rehashTriggers
  deriving DecidableEq

/-- The places where an allocation fails in one call. -/
abbrev Failures := Place → Bool

/-- An allocation of `add_trigger` fails. -/
def Failures.inTrigger (fails : Failures) (i : ℕ) : Bool :=
  fails (.copyTrigger i) || fails (.insertTrigger i) || fails (.pushCell i) ||
    fails (.pushTrigger i)

/-- An allocation fails while an entry with `n` triggers is made. -/
def Failures.inEntry (fails : Failures) (n : ℕ) : Bool :=
  fails .copyKey || fails .insertPrimary || fails .pushLru || fails .insertTimeout ||
    (List.range n).any fails.inTrigger

/-- The first failure is before a trigger has been inserted. -/
def Failures.early (fails : Failures) : Bool :=
  fails .copyKey || fails .insertPrimary || fails .pushLru || fails .insertTimeout ||
    (fails (.copyTrigger 0) || fails (.insertTrigger 0))

namespace MemCache

/-! ## `store` in steps -/

/-- `primary.insert`, and what is written to the new entry before the other containers have it. -/
def insertPrimary (key data : Bytes) (gen : Option ℕ) (c : MemCache) : MemCache :=
  { c with
    primary := (c.next, key, ⟨data, c.next, [], c.next, gen.getD c.generation⟩) :: c.primary
    size := c.size + 1
    generation := if gen.isSome then c.generation else (c.generation + 1) % 2 ^ 64
    next := c.next + 1 }

/-- `lru.push_front`. -/
def pushLru (p : ℕ) (c : MemCache) : MemCache := { c with lru := (p, p) :: c.lru }

/-- The entry is put to the list of a trigger. -/
def pushCell (p t : ℕ) (c : MemCache) : MemCache :=
  { c with triggers := c.triggers.modify t fun node =>
    (node.1, (c.next, p) :: node.2), next := c.next + 1 }

/-- The cell of a trigger is put to the list of the entry. -/
def pushTrigger (p t cell : ℕ) (c : MemCache) : MemCache :=
  { c with
    primary := c.primary.modify p fun x =>
      (x.1, { x.2 with triggers := x.2.triggers ++ [(t, cell)] })
    triggersCount := c.triggersCount + 1 }

/-! ## With failures -/

/-- `add_trigger`, and whether an allocation fails. -/
def addTriggerFailing (fails : Failures) (i p : ℕ) (c : MemCache) (name : Bytes) :
    MemCache × Bool :=
  if fails (.copyTrigger i) || fails (.insertTrigger i) then (c, true)
  else
    let (t, c) := c.insertTrigger name
    if fails (.pushCell i) then (c, true)
    else if fails (.pushTrigger i) then (c.pushCell p t, true)
    else ((c.pushCell p t).pushTrigger p t c.next, false)

/-- The loop over the triggers. -/
def addTriggersFailing (fails : Failures) (p : ℕ) : ℕ → MemCache → List Bytes → MemCache × Bool
  | _, c, [] => (c, false)
  | i, c, name :: names =>
    if (addTriggerFailing fails i p c name).2 then addTriggerFailing fails i p c name
    else addTriggersFailing fails p (i + 1) (addTriggerFailing fails i p c name).1 names

/-- The part of `store` that makes the new entry. -/
def insertFailing (fails : Failures) (c : MemCache) (key data : Bytes) (triggers : StringSet)
    (timeout : ℤ) (gen : Option ℕ) : MemCache × Bool :=
  if fails .copyKey || fails .insertPrimary then (c, true)
  else if fails .pushLru then (c.insertPrimary key data gen, true)
  else if fails .insertTimeout then ((c.insertPrimary key data gen).pushLru c.next, true)
  else addTriggersFailing fails c.next 0 (c.insertEntry key data timeout gen)
    (allTriggers key triggers)

/-- `nl_clear`, and whether an allocation fails.  A table of size zero needs no memory. -/
def nlClearFailing (fails : Failures) (c : MemCache) : MemCache × Bool :=
  if 0 < c.limit ∧
    fails .rehashPrimary then ({ c with timeout := [], lru := [], primary := [] }, true)
  else if 0 < c.limit ∧ fails .rehashTriggers then
    ({ c with timeout := [], lru := [], primary := [], triggers := [] }, true)
  else (c.clear, false)

/-- `store`, and whether it throws. -/
def storeFailing (settings : Settings) (fails : Failures) (c : MemCache) (now : ℤ) (memory : Memory)
    (key data : Bytes) (triggers : StringSet) (timeout : ℤ) (gen : Option ℕ) :
    Option (MemCache × Bool) :=
  if fails .copyData then some (c, false)
  else
    (c.remove key).bind fun c =>
      if settings.sizeLimit.any (· < c.size) then some (c, false)
      else
        (c.checkLimits now memory).map fun c =>
          if (insertFailing fails c key data triggers timeout gen).2 then
            nlClearFailing fails (insertFailing fails c key data triggers timeout gen).1
          else ((insertFailing fails c key data triggers timeout gen).1, false)

lemma addTriggersFailing_none (p i : ℕ) (c : MemCache) (names : List Bytes) :
    addTriggersFailing (fun _ => false) p i c names = (names.foldl (addTrigger p) c, false) := by
  induction names generalizing i c with
  | nil => rfl
  | cons name names ih =>
    have hadd : addTriggerFailing (fun _ => false) i p c name = (addTrigger p c name, false) := rfl
    rw [addTriggersFailing, hadd, if_neg Bool.false_ne_true, ih]
    rfl

/-- Without a failure it is the `store` of a cache that has enough memory. -/
theorem storeFailing_none (settings : Settings) (c : MemCache) (now : ℤ) (memory : Memory)
    (key data : Bytes) (triggers : StringSet) (timeout : ℤ) (gen : Option ℕ) :
    c.storeFailing settings (fun _ => false) now memory key data triggers timeout gen =
      (c.store settings now memory key data triggers timeout gen).map fun c => (c, false) := by
  have hinsert : ∀ c : MemCache, insertFailing (fun _ => false) c key data triggers timeout gen =
      ((allTriggers key triggers).foldl (addTrigger c.next) (c.insertEntry key data timeout gen),
        false) := by
    intro c
    exact addTriggersFailing_none c.next 0 (c.insertEntry key data timeout gen)
      (allTriggers key triggers)
  unfold storeFailing store
  rw [if_neg (by decide)]
  rcases c.remove key with _ | c₁
  · rfl
  · rw [Option.bind_some, Option.bind_some]
    split_ifs
    · rfl
    · rw [Option.map_map]
      congr 1
      funext c₂
      rw [hinsert, if_neg Bool.false_ne_true]
      rfl

/-! ## The containers without the counters -/

/-- The cache with its counters set right. -/
def recount (c : MemCache) : MemCache :=
  { c with
    size := c.primary.length
    triggersCount := (c.primary.map fun x => x.2.2.triggers.length).sum }

variable {c c' d : MemCache}

lemma Linked.recount (h : c.Linked) : c.recount = c := by
  unfold MemCache.recount
  rw [← h.size_eq, ← h.count_eq]

/-- An operation that does not look at the counters gives the same containers for the same
containers. -/
lemma exists_of_map_recount {o o' : Option MemCache} (h : o.map recount = o'.map recount)
    (ho : o' = some d) (hd : d.Linked) : ∃ c', o = some c' ∧ c'.recount = d := by
  rw [ho, Option.map_some, hd.recount] at h
  exact Option.map_eq_some_iff.1 h

/-- The lists of the triggers do not depend on the counter. -/
lemma unhook_count (hooks : List (ℕ × ℕ)) (ts : Cells (Bytes × Cells ℕ)) (count count' : ℕ) :
    (unhook hooks ts count).map Prod.fst = (unhook hooks ts count').map Prod.fst := by
  induction hooks generalizing ts count count' with
  | nil => rfl
  | cons x hooks ih =>
    obtain ⟨t, cell⟩ := x
    unfold unhook
    rw [Option.map_bind, Option.map_bind]
    congr 1
    funext node
    rw [Function.comp_apply, Function.comp_apply, Option.map_bind, Option.map_bind]
    congr 1
    funext cells
    exact ih _ (count - 1) (count' - 1)

lemma deleteNode_recount (h : c.recount = c'.recount) (p : ℕ) :
    (c.deleteNode p).map recount = (c'.deleteNode p).map recount := by
  have hself : ∀ c : MemCache, (c.recount.deleteNode p).map recount =
      (c.deleteNode p).map recount := by
    intro c
    unfold deleteNode
    show Option.map recount ((c.primary.lookup p).bind _) =
      Option.map recount ((c.primary.lookup p).bind _)
    rw [Option.map_bind, Option.map_bind]
    congr 1
    funext node
    rw [Function.comp_apply, Function.comp_apply, Option.map_bind, Option.map_bind]
    congr 1
    funext lru
    rw [Function.comp_apply, Function.comp_apply, Option.map_bind, Option.map_bind]
    congr 1
    funext timeout
    rw [Function.comp_apply, Function.comp_apply, Option.map_map, Option.map_map]
    have hcount := unhook_count node.2.triggers c.triggers c.recount.triggersCount c.triggersCount
    have hmap := congrArg (Option.map fun ts => recount
      { c with lru := lru, timeout := timeout, triggers := ts, primary := c.primary.without p })
        hcount
    rw [Option.map_map, Option.map_map] at hmap
    exact hmap
  rw [← hself c, h, hself c']

lemma deleteNodes_recount (h : c.recount = c'.recount) (ps : List ℕ) :
    (ps.foldlM deleteNode c).map recount = (ps.foldlM deleteNode c').map recount := by
  induction ps generalizing c c' with
  | nil =>
    show some c.recount = some c'.recount
    rw [h]
  | cons p ps ih =>
    rw [List.foldlM_cons, List.foldlM_cons]
    have hfirst := deleteNode_recount h p
    rcases hc : c.deleteNode p with _ | d
    · rw [hc, Option.map_none] at hfirst
      rw [Option.map_eq_none_iff.1 hfirst.symm]
    · rw [hc, Option.map_some] at hfirst
      obtain ⟨d', hd', heq⟩ := Option.map_eq_some_iff.1 hfirst.symm
      rw [hd']
      exact ih heq.symm

lemma rise_recount (c : MemCache) (trigger : Bytes) :
    (c.rise trigger).map recount = (c.recount.rise trigger).map recount := by
  unfold rise
  rw [show c.recount.findTrigger trigger = c.findTrigger trigger from rfl]
  rcases c.findTrigger trigger with _ | ⟨t, name, cells⟩
  · rfl
  · exact deleteNodes_recount (show c.recount = c.recount.recount from rfl) (cells.map Prod.snd)

lemma remove_recount (c : MemCache) (key : Bytes) :
    (c.remove key).map recount = (c.recount.remove key).map recount := by
  unfold remove
  rw [show c.recount.find key = c.find key from rfl]
  rcases c.find key with _ | ⟨p, name, cont⟩
  · rfl
  · exact deleteNode_recount (show c.recount = c.recount.recount from rfl) p

lemma fetch_recount (c : MemCache) (now : ℤ) (key : Bytes) :
    (c.fetch now key).map (Prod.map recount id) = (c.recount.fetch now key).map
      (Prod.map recount id) := by
  unfold fetch
  rw [show c.recount.find key = c.find key from rfl]
  rcases c.find key with _ | ⟨p, name, cont⟩
  · rfl
  · dsimp only
    rw [Option.map_bind, Option.map_bind]
    congr 1
    funext deadline
    rw [Function.comp_apply, Function.comp_apply]
    split_ifs
    · rfl
    · rw [Option.map_bind, Option.map_bind]
      congr 1
      funext lru
      rw [Function.comp_apply, Function.comp_apply, Option.map_map, Option.map_map]
      rfl

lemma addTrigger_recount (h : c.recount = c'.recount) (p : ℕ) (name : Bytes) :
    (addTrigger p c name).recount = (addTrigger p c' name).recount := by
  have hself : ∀ c : MemCache, (addTrigger p c.recount name).recount =
      (addTrigger p c name).recount := by
    intro c
    unfold addTrigger insertTrigger
    rw [show c.recount.findTrigger name = c.findTrigger name from rfl]
    rcases c.findTrigger name with _ | ⟨t, name', cells⟩
    · rfl
    · rfl
  rw [← hself c, h, hself c']

lemma addTriggers_recount (h : c.recount = c'.recount) (p : ℕ) (names : List Bytes) :
    (names.foldl (addTrigger p) c).recount = (names.foldl (addTrigger p) c').recount := by
  induction names generalizing c c' with
  | nil => exact h
  | cons name names ih => exact ih (addTrigger_recount h p name)

/-! ## The operations where the counters may be wrong -/

section Recounted

variable {a : Cells (Bytes × Entry)} {l : List (Bytes × Entry)}

lemma Holds.linked (h : c.Holds l) : c.Linked := by
  obtain ⟨a, hrep, -⟩ := h
  exact hrep.linked

lemma Holds.rise_recounted (h : c.recount.Holds l) (trigger : Bytes) :
    ∃ c', c.rise trigger = some c' ∧
    c'.recount.Holds (l.filter fun x => trigger ∉ x.2.triggers) := by
  obtain ⟨d, hrise, hholds, -⟩ := h.rise trigger
  obtain ⟨c', hc', rfl⟩ := exists_of_map_recount (rise_recount c trigger) hrise hholds.linked
  exact ⟨c', hc', hholds⟩

lemma Rep.remove_recounted (h : c.recount.Rep a) (key : Bytes) :
    ∃ c', c.remove key = some c' ∧ c'.recount.Rep (a.filter fun x => x.2.1 ≠ key) := by
  obtain ⟨d, hremove, hrep, -⟩ := h.remove key
  obtain ⟨c', hc', rfl⟩ := exists_of_map_recount (remove_recount c key) hremove hrep.linked
  exact ⟨c', hc', hrep⟩

lemma Holds.fetch_recounted (h : c.recount.Holds l) (now : ℤ) (key : Bytes) :
    ∃ c', c.fetch now key = some (c', (fetchEntry now key l).2) ∧
    c'.recount.Holds (fetchEntry now key l).1 := by
  obtain ⟨d, hfetch, hholds, -⟩ := h.fetch now key
  have hmap := fetch_recount c now key
  rw [hfetch, Option.map_some] at hmap
  obtain ⟨⟨c', r⟩, hc', heq⟩ := Option.map_eq_some_iff.1 hmap
  obtain ⟨hcache, rfl⟩ := Prod.mk.inj heq
  have hcache : c'.recount = d := hcache.trans hholds.linked.recount
  exact ⟨c', hc', hcache.symm ▸ hholds⟩

variable {key : Bytes}

lemma Rep.deleteNode_recounted (h : c.recount.Rep a) {p : ℕ} {e : Entry} (hp : (p, key, e) ∈ a) :
    ∃ c', c.deleteNode p = some c' ∧ c'.recount.Rep (a.without p) := by
  obtain ⟨d, hdelete, hrep, -⟩ := h.deleteNode hp
  obtain ⟨c', hc', rfl⟩ :=
    exists_of_map_recount (deleteNode_recount (show c.recount = c.recount.recount from rfl) p)
      hdelete hrep.linked
  exact ⟨c', hc', hrep⟩

/-- The loop of `check_limits` takes entries away only, whatever the counters say. -/
lemma Rep.checkLimitsLoop_recounted (h : c.recount.Rep a) (now : ℤ) (memory : Memory) (n : ℕ) :
    ∃ c' a', MemCache.checkLimitsLoop now memory n c = some c' ∧ c'.recount.Rep a' ∧
    ∀ x ∈ a', x ∈ a := by
  induction n generalizing c a with
  | zero => exact ⟨c, a, rfl, h, fun _ hx => hx⟩
  | succ n ih =>
    unfold MemCache.checkLimitsLoop
    split_ifs with hcond
    · rcases hvictim : c.victim now with _ | p
      · exact ⟨c, a, rfl, h, fun _ hx => hx⟩
      · have ha : a ≠ [] := by
          -- a cache without entries has no victim
          rintro rfl
          have hlru : c.lru = [] := List.map_eq_nil_iff.1 h.lru
          have htimeout : c.timeout = [] := by
            rcases ht : c.timeout with _ | ⟨⟨cell, deadline, q⟩, rest⟩
            · rfl
            · have hmem : (cell, deadline, q) ∈ c.timeout := ht ▸ List.mem_cons_self
              obtain ⟨key, cont, hq, -⟩ := (h.linked.timeout_iff cell q).1 ⟨deadline, hmem⟩
              obtain ⟨e, he⟩ := h.mem_of_primary hq
              cases he
          unfold MemCache.victim at hvictim
          rw [htimeout, hlru] at hvictim
          cases hvictim
        obtain ⟨q, key, e, hq, hmem, -⟩ := h.victim ha now
        obtain rfl : q = p := Option.some.inj (hq.symm.trans hvictim)
        obtain ⟨c₁, hdelete, hrep⟩ := h.deleteNode_recounted hmem
        obtain ⟨c₂, a₂, hloop, hrep₂, hsub⟩ := ih hrep
        refine ⟨c₂, a₂, ?_, hrep₂, fun x hx => (Cells.mem_without.1 (hsub x hx)).1⟩
        dsimp only
        rw [hdelete]
        exact hloop
    · exact ⟨c, a, rfl, h, fun _ hx => hx⟩

lemma Rep.insert_recounted (h : c.recount.Rep a) (hkey : ∀ p e, (p, key, e) ∉ a) (data : Bytes)
    (triggers : StringSet) (timeout : ℤ) (gen : Option ℕ) :
    ∃ e, e.data = data ∧
      ((allTriggers key triggers).foldl (addTrigger c.next)
        (c.insertEntry key data timeout gen)).recount.Rep
        ((c.next, key, e) :: a) := by
  obtain ⟨d, hinsert, hrep, -⟩ := h.insert hkey data triggers timeout gen
  refine ⟨c.recount.newEntry key data triggers timeout gen, rfl, ?_⟩
  have hsame : (c.insertEntry key data timeout gen).recount =
      (c.recount.insertEntry key data timeout gen).recount :=
    rfl
  rw [addTriggers_recount hsame, show c.next = c.recount.next from rfl, hinsert,
    hrep.linked.recount]
  exact hrep

lemma holds_of_empty (hprimary : c.primary = []) (hlru : c.lru = []) (htimeout : c.timeout = [])
    (htriggers : c.triggers = []) : c.recount.Holds [] := by
  have heq : c.recount = c.clear := by
    unfold MemCache.recount MemCache.clear
    rw [hprimary, hlru, htimeout, htriggers]
    rfl
  rw [heq]
  exact holds_clear c

end Recounted

/-! ## The partial states of `store` -/

section Partial

variable {fails : Failures}

lemma addTriggerFailing_snd (fails : Failures) (i p : ℕ) (c : MemCache) (name : Bytes) :
    (addTriggerFailing fails i p c name).2 = fails.inTrigger i := by
  unfold addTriggerFailing Failures.inTrigger
  rcases fails (.copyTrigger i) || fails (.insertTrigger i)
  · rcases fails (.pushCell i)
    · rcases fails (.pushTrigger i)
      · rfl
      · rfl
    · rfl
  · rfl

lemma addTriggerFailing_fst {i p : ℕ} {name : Bytes}
    (h : (addTriggerFailing fails i p c name).2 = false) :
    (addTriggerFailing fails i p c name).1 = addTrigger p c name := by
  unfold addTriggerFailing at h ⊢
  split_ifs at h ⊢
  rfl

lemma addTriggersFailing_snd (fails : Failures) (p i : ℕ) (c : MemCache) (names : List Bytes) :
    (addTriggersFailing fails p i c names).2 = (List.range names.length).any fun j =>
    fails.inTrigger (i + j) := by
  induction names generalizing i c with
  | nil => rfl
  | cons name names ih =>
    have hshift : (fun j => fails.inTrigger (i + j)) ∘ Nat.succ = fun j =>
        fails.inTrigger (i + 1 + j) := by
      funext j
      show fails.inTrigger (i + (j + 1)) = _
      rw [Nat.add_assoc, Nat.add_comm 1 j]
    rw [addTriggersFailing, List.length_cons, List.range_succ_eq_map, List.any_cons,
      List.any_map, Nat.add_zero, addTriggerFailing_snd]
    rcases hfirst : fails.inTrigger i with _ | _
    · rw [if_neg Bool.false_ne_true, ih, Bool.false_or, hshift]
    · rw [if_pos rfl, addTriggerFailing_snd, hfirst, Bool.true_or]

variable {names : List Bytes}

lemma addTriggersFailing_fst {p i : ℕ} (h : (addTriggersFailing fails p i c names).2 = false) :
    (addTriggersFailing fails p i c names).1 = names.foldl (addTrigger p) c := by
  induction names generalizing i c with
  | nil => rfl
  | cons name names ih =>
    rw [addTriggersFailing] at h ⊢
    rcases hfirst : (addTriggerFailing fails i p c name).2 with _ | _
    · rw [hfirst, if_neg Bool.false_ne_true] at h
      rw [if_neg Bool.false_ne_true, ih h, addTriggerFailing_fst hfirst]
      rfl
    · rw [hfirst, if_pos rfl, hfirst] at h
      cases h

/-- A trigger that has been inserted stays. -/
lemma insertTrigger_ne_nil (c : MemCache) (name : Bytes) :
    (c.insertTrigger name).2.triggers ≠ [] := by
  unfold insertTrigger
  rcases hfind : c.findTrigger name with _ | ⟨t, name', cells⟩
  · exact List.cons_ne_nil _ _
  · exact List.ne_nil_of_mem (find_cells hfind).2

lemma pushCell_ne_nil (p t : ℕ) (h : c.triggers ≠ []) : (c.pushCell p t).triggers ≠ [] := by
  unfold pushCell Cells.modify
  exact fun hnil => h (List.map_eq_nil_iff.1 hnil)

lemma addTriggerFailing_triggers (fails : Failures) (i p : ℕ) (c : MemCache) (name : Bytes) :
    (addTriggerFailing fails i p c name).1.triggers = [] ↔
      c.triggers = [] ∧ (fails (.copyTrigger i) || fails (.insertTrigger i)) = true := by
  have hnew := insertTrigger_ne_nil c name
  unfold addTriggerFailing
  split_ifs with hearly hcell hhook
  · exact (and_iff_left hearly).symm
  · exact iff_of_false hnew fun h => hearly h.2
  · exact iff_of_false (pushCell_ne_nil p _ hnew) fun h => hearly h.2
  · exact iff_of_false (pushCell_ne_nil p _ hnew) fun h => hearly h.2

lemma addTriggersFailing_ne_nil (p i : ℕ) (names : List Bytes) (h : c.triggers ≠ []) :
    (addTriggersFailing fails p i c names).1.triggers ≠ [] := by
  induction names generalizing i c with
  | nil => exact h
  | cons name names ih =>
    have hfirst : (addTriggerFailing fails i p c name).1.triggers ≠ [] :=
      fun hnil => h ((addTriggerFailing_triggers fails i p c name).1 hnil).1
    rw [addTriggersFailing]
    split_ifs
    · exact hfirst
    · exact ih (i + 1) hfirst

lemma addTriggersFailing_triggers (fails : Failures) (p i : ℕ) (c : MemCache) (h : names ≠ []) :
    (addTriggersFailing fails p i c names).1.triggers = [] ↔
      c.triggers = [] ∧ (fails (.copyTrigger i) || fails (.insertTrigger i)) = true := by
  obtain ⟨name, names, rfl⟩ := List.exists_cons_of_ne_nil h
  have hfirst := addTriggerFailing_triggers fails i p c name
  rw [addTriggersFailing]
  split_ifs with hfails
  · exact hfirst
  · -- the first trigger has been inserted
    rw [addTriggerFailing_snd] at hfails
    have hlate : ¬ (fails (.copyTrigger i) || fails (.insertTrigger i)) = true := by
      intro hearly
      unfold Failures.inTrigger at hfails
      rw [hearly] at hfails
      exact hfails rfl
    exact iff_of_false (addTriggersFailing_ne_nil p (i + 1) names fun hnil =>
      hlate (hfirst.1 hnil).2)
      fun hboth => hlate hboth.2

lemma allTriggers_ne_nil (key : Bytes) (triggers : StringSet) : allTriggers key triggers ≠ [] := by
  unfold allTriggers
  split_ifs with h
  · exact List.ne_nil_of_mem (SortedSet.mem_toList.2 h)
  · exact List.cons_ne_nil _ _

variable {key data : Bytes} {triggers : StringSet} {timeout : ℤ} {gen : Option ℕ}

lemma insertFailing_snd (fails : Failures) (c : MemCache) (key data : Bytes) (triggers : StringSet)
    (timeout : ℤ) (gen : Option ℕ) :
    (insertFailing fails c key data triggers timeout gen).2 =
      fails.inEntry (allTriggers key triggers).length := by
  have hloop := addTriggersFailing_snd fails c.next 0 (c.insertEntry key data timeout gen)
    (allTriggers key triggers)
  have hshift : (fun j => fails.inTrigger (0 + j)) = fails.inTrigger := by
    funext j
    rw [Nat.zero_add]
  rw [hshift] at hloop
  unfold insertFailing Failures.inEntry
  rcases fails .copyKey || fails .insertPrimary
  · rcases fails .pushLru
    · rcases fails .insertTimeout
      · exact hloop
      · rfl
    · rfl
  · rfl

lemma insertFailing_fst (h : (insertFailing fails c key data triggers timeout gen).2 = false) :
    (insertFailing fails c key data triggers timeout gen).1 =
      (allTriggers key triggers).foldl (addTrigger c.next)
        (c.insertEntry key data timeout gen) := by
  unfold insertFailing at h ⊢
  split_ifs at h ⊢
  exact addTriggersFailing_fst h

/-- The triggers that a failure leaves. -/
lemma insertFailing_triggers (fails : Failures) (c : MemCache) (key data : Bytes)
    (triggers : StringSet) (timeout : ℤ) (gen : Option ℕ) :
    (insertFailing fails c key data triggers timeout gen).1.triggers = [] ↔
    c.triggers = [] ∧ fails.early = true := by
  have hloop := addTriggersFailing_triggers fails c.next 0 (c.insertEntry key data timeout gen)
    (allTriggers_ne_nil key triggers)
  unfold insertFailing Failures.early
  rcases fails .copyKey || fails .insertPrimary
  · rcases fails .pushLru
    · rcases fails .insertTimeout
      · exact hloop
      · exact (and_iff_left rfl).symm
    · exact (and_iff_left rfl).symm
  · exact (and_iff_left rfl).symm

lemma addTriggersFailing_limit (fails : Failures) (p i : ℕ) (c : MemCache) (names : List Bytes) :
    (addTriggersFailing fails p i c names).1.limit = c.limit := by
  have hstep : ∀ i c name, (addTriggerFailing fails i p c name).1.limit = c.limit := by
    intro i c name
    have hinsert : (c.insertTrigger name).2.limit = c.limit := by
      unfold insertTrigger
      rcases c.findTrigger name with _ | ⟨t, name', cells⟩
      · rfl
      · rfl
    unfold addTriggerFailing
    split_ifs
    · rfl
    · exact hinsert
    · exact hinsert
    · exact hinsert
  induction names generalizing i c with
  | nil => rfl
  | cons name names ih =>
    rw [addTriggersFailing]
    split_ifs
    · exact hstep i c name
    · rw [ih, hstep]

lemma insertFailing_limit (fails : Failures) (c : MemCache) (key data : Bytes)
    (triggers : StringSet) (timeout : ℤ) (gen : Option ℕ) :
    (insertFailing fails c key data triggers timeout gen).1.limit = c.limit := by
  unfold insertFailing
  split_ifs
  · rfl
  · rfl
  · rfl
  · exact addTriggersFailing_limit fails c.next 0 (c.insertEntry key data timeout gen)
      (allTriggers key triggers)

lemma nlClearFailing_empty (fails : Failures) (c : MemCache) :
    (nlClearFailing fails c).1.primary = [] ∧ (nlClearFailing fails c).1.lru = [] ∧
      (nlClearFailing fails c).1.timeout = [] := by
  unfold nlClearFailing
  split_ifs
  · exact ⟨rfl, rfl, rfl⟩
  · exact ⟨rfl, rfl, rfl⟩
  · exact ⟨rfl, rfl, rfl⟩

/-- The clean-up leaves the triggers where the table of the entries cannot get its size. -/
lemma nlClearFailing_triggers (fails : Failures) (c : MemCache) :
    (nlClearFailing fails c).1.triggers = if 0 < c.limit ∧
    fails .rehashPrimary then c.triggers else [] := by
  unfold nlClearFailing
  by_cases hprimary : 0 < c.limit ∧ fails .rehashPrimary = true
  · rw [if_pos hprimary, if_pos hprimary]
  · rw [if_neg hprimary, if_neg hprimary]
    split_ifs
    · rfl
    · rfl

end Partial

/-! ## `store` where allocations fail -/

/-- The cache when the new entry is made, if it is made. -/
def makeRoom (settings : Settings) (c : MemCache) (now : ℤ) (memory : Memory) (key : Bytes) :
    Option MemCache :=
  (c.remove key).bind fun c =>
    if settings.sizeLimit.any (· < c.size) then none else c.checkLimits now memory

/-- The new entry cannot be made and the clean-up fails, too, while there are triggers. -/
def Breaks (settings : Settings) (fails : Failures) (c : MemCache) (now : ℤ) (memory : Memory)
    (key : Bytes) (triggers : StringSet) : Prop :=
  ∃ c', c.makeRoom settings now memory key = some c' ∧ 0 < c'.limit ∧ fails .rehashPrimary = true ∧
    fails.inEntry (allTriggers key triggers).length = true ∧
    (c'.triggers ≠ [] ∨ fails.early = false)

section Store

variable {settings : Settings} {fails : Failures} {now : ℤ} {memory : Memory} {key : Bytes}
    {triggers : StringSet}
  {l : List (Bytes × Entry)}

lemma storeFailing_eq (hdata : fails .copyData = false)
    (hroom : c.makeRoom settings now memory key = some c') (data : Bytes) (triggers : StringSet)
    (timeout : ℤ) (gen : Option ℕ) :
    c.storeFailing settings fails now memory key data triggers timeout gen =
      some (if (insertFailing fails c' key data triggers timeout gen).2 then
        nlClearFailing fails (insertFailing fails c' key data triggers timeout gen).1
      else ((insertFailing fails c' key data triggers timeout gen).1, false)) := by
  unfold makeRoom at hroom
  obtain ⟨c₁, hremove, hcheck⟩ := Option.bind_eq_some_iff.1 hroom
  unfold storeFailing
  rw [hdata, if_neg Bool.false_ne_true, hremove, Option.bind_some]
  by_cases hlimit : settings.sizeLimit.any (· < c₁.size) = true
  · rw [if_pos hlimit] at hcheck
    cases hcheck
  · rw [if_neg hlimit] at hcheck
    rw [if_neg hlimit, hcheck, Option.map_some]

/-- Triggers without entries stay. -/
lemma storeFailing_breaks (hbreaks : c.Breaks settings fails now memory key triggers)
    (hdata : fails .copyData = false) (data : Bytes) (timeout : ℤ) (gen : Option ℕ) :
    ∃ x, c.storeFailing settings fails now memory key data triggers timeout gen = some x ∧
    x.1.primary = [] ∧
      x.1.triggers ≠ [] := by
  obtain ⟨c', hroom, hlimit, hrehash, hfails, hleft⟩ := hbreaks
  refine ⟨_, storeFailing_eq hdata hroom data triggers timeout gen, ?_⟩
  rw [insertFailing_snd, hfails, if_pos rfl]
  refine ⟨(nlClearFailing_empty _ _).1, ?_⟩
  rw [nlClearFailing_triggers, insertFailing_limit, if_pos ⟨hlimit, hrehash⟩]
  intro hnil
  obtain ⟨hnone, hearly⟩ := (insertFailing_triggers fails c' key data triggers timeout gen).1 hnil
  rcases hleft with hleft | hleft
  · exact hleft hnone
  · rw [hearly] at hleft
    cases hleft

/-- Otherwise the containers agree, and the key has the new data or none. -/
lemma Holds.storeFailing (h : c.recount.Holds l) (hdata : fails .copyData = false)
    (hbreaks : ¬ c.Breaks settings fails now memory key triggers) (data : Bytes) (timeout : ℤ)
    (gen : Option ℕ) :
    ∃ x l', c.storeFailing settings fails now memory key data triggers timeout gen = some x ∧
    x.1.recount.Holds l' ∧
      ∀ y ∈ l', (y.1 = key ∧ y.2.data = data) ∨ (y.1 ≠ key ∧ y ∈ l) := by
  obtain ⟨a, hrep, rfl⟩ := h
  obtain ⟨c₁, hremove, hrep₁⟩ := hrep.remove_recounted key
  have hothers : ∀ x ∈ a.filter (fun x => x.2.1 ≠ key), x.2.1 ≠ key ∧ x.2 ∈ a.map Prod.snd := by
    intro x hx
    obtain ⟨hx, hne⟩ := List.mem_filter.1 hx
    exact ⟨of_decide_eq_true hne, List.mem_map.2 ⟨x, hx, rfl⟩⟩
  by_cases hlimit : settings.sizeLimit.any (· < c₁.size) = true
  · refine ⟨(c₁, false), _, ?_, ⟨_, hrep₁, rfl⟩, ?_⟩
    · unfold MemCache.storeFailing
      rw [hdata, if_neg Bool.false_ne_true, hremove, Option.bind_some, if_pos hlimit]
    · intro y hy
      obtain ⟨x, hx, rfl⟩ := List.mem_map.1 hy
      exact .inr (hothers x hx)
  · obtain ⟨c₂, a₂, hloop, hrep₂, hsub⟩ := hrep₁.checkLimitsLoop_recounted now memory c₁.size
    have hroom : c.makeRoom settings now memory key = some c₂ := by
      unfold makeRoom
      rw [hremove, Option.bind_some, if_neg hlimit]
      exact hloop
    rcases hfails : (insertFailing fails c₂ key data triggers timeout gen).2 with _ | _
    · -- the new entry is made
      have hkey : ∀ p e, (p, key, e) ∉ a₂ := fun p e hp => (hothers _ (hsub _ hp)).1 rfl
      obtain ⟨e, he, hrep₃⟩ := hrep₂.insert_recounted hkey data triggers timeout gen
      refine ⟨_, (key, e) :: a₂.map Prod.snd,
        storeFailing_eq hdata hroom data triggers timeout gen, ?_, ?_⟩
      · rw [hfails, if_neg Bool.false_ne_true, insertFailing_fst hfails]
        exact ⟨_, hrep₃, rfl⟩
      · intro y hy
        rcases List.mem_cons.1 hy with rfl | hy
        · exact .inl ⟨rfl, he⟩
        · obtain ⟨x, hx, rfl⟩ := List.mem_map.1 hy
          exact .inr (hothers x (hsub x hx))
    · -- the cache is cleared
      refine ⟨_, [], storeFailing_eq hdata hroom data triggers timeout gen, ?_,
        fun y hy => by cases hy⟩
      rw [hfails, if_pos rfl]
      obtain ⟨hprimary, hlru, htimeout⟩ :=
        nlClearFailing_empty fails (insertFailing fails c₂ key data triggers timeout gen).1
      refine holds_of_empty hprimary hlru htimeout ?_
      rw [nlClearFailing_triggers, insertFailing_limit]
      split_ifs with hrehash
      · rw [insertFailing_triggers]
        rw [insertFailing_snd] at hfails
        by_contra hleft
        refine hbreaks ⟨c₂, hroom, hrehash.1, hrehash.2, hfails, ?_⟩
        rw [not_and_or, Bool.not_eq_true] at hleft
        exact hleft
      · rfl

end Store

/-- The cache after an operation; the allocations of `store` may fail. -/
def applyFailing (settings : Settings) (fails : Failures) (c : MemCache) : Op → Option MemCache
  | .store now memory key data triggers timeout gen =>
    (c.storeFailing settings fails now memory key data triggers timeout gen).map Prod.fst
  | op => (c.apply settings op).map Prod.fst

end MemCache

/-! ## Runs -/

/-- What an operation stores, under which key. -/
def Op.storing : Op → List (Bytes × Bytes)
  | .store _ _ key data _ _ _ => [(key, data)]
  | _ => []

/-- The cache in a run, if no operation has used what is not there, and what has been stored, the
last first. -/
structure Stores where
  cache : Option MemCache
  stored : List (Bytes × Bytes)

namespace Stores

/-- A run with a new cache. -/
def init (pages : ℕ) : Stores := ⟨some (.init pages), []⟩

/-- An operation, with the allocations that fail. -/
def step (settings : Settings) (s : Stores) (x : Op × Failures) : Stores :=
  ⟨s.cache.bind fun c => c.applyFailing settings x.2 x.1, x.1.storing ++ s.stored⟩

/-- The containers of the cache agree with each other, and a fetch gives what has been stored last
or nothing. -/
def Keeps (s : Stores) : Prop :=
  ∃ c, s.cache = some c ∧ c.recount.Linked ∧ ∀ key data, s.stored.lookup key = some data →
    ∀ now, ∃ c' r, c.fetch now key = some (c', r) ∧ ∀ e, r = some e → e.data = data

/-- If the data cannot be copied, the cache has no other data of the key; and if the clean-up fails,
there are no triggers. -/
def Good (settings : Settings) (s : Stores) : Op × Failures → Prop
  | (.store now memory key data triggers _ _, fails) => ∀ c, s.cache = some c →
    if fails .copyData then ∀ x, c.find key = some x → x.2.2.data = data
    else ¬ c.Breaks settings fails now memory key triggers
  | _ => True

/-- The entries are what has been stored last under their keys. -/
def Sound (s : Stores) : Prop :=
  ∃ c l, s.cache = some c ∧ c.recount.Holds l ∧ ∀ key e, (key, e) ∈ l →
    s.stored.lookup key = some e.data

variable {settings : Settings} {s : Stores} {x : Op × Failures}

lemma sound_init (pages : ℕ) : (init pages).Sound := by
  refine ⟨.init pages, [], rfl, ?_, fun key e he => by cases he⟩
  rw [(MemCache.holds_init pages).linked.recount]
  exact MemCache.holds_init pages

lemma Sound.keeps (h : s.Sound) : s.Keeps := by
  obtain ⟨c, l, hcache, hholds, hstored⟩ := h
  refine ⟨c, hcache, hholds.linked, ?_⟩
  intro key data hlookup now
  obtain ⟨c', hfetch, -⟩ := hholds.fetch_recounted now key
  refine ⟨c', _, hfetch, ?_⟩
  intro e he
  have hmem := (hholds.fetchEntry_eq_some.1 he).1
  exact Option.some.inj ((hstored key e hmem).symm.trans hlookup)

/-- An operation that stores nothing takes entries away only. -/
lemma Sound.of_subset {c : MemCache} {l l' : List (Bytes × Entry)} {stored : List (Bytes × Bytes)}
    (hstored : ∀ key e, (key, e) ∈ l → stored.lookup key = some e.data)
    (hholds : c.recount.Holds l') (hsub : ∀ y ∈ l', y ∈ l) : Sound ⟨some c, stored⟩ :=
  ⟨c, l', rfl, hholds, fun key e he => hstored key e (hsub _ he)⟩

lemma Sound.step (h : s.Sound) (hx : s.Good settings x) : (s.step settings x).Sound := by
  obtain ⟨c, l, hcache, hholds, hstored⟩ := h
  obtain ⟨op, fails⟩ := x
  unfold Stores.step
  rw [hcache, Option.bind_some]
  cases op with
  | store now memory key data triggers timeout gen =>
    have hgood := hx c hcache
    have hlookup : ∀ key' e, key' ≠ key → (key', e) ∈ l →
        ((key, data) :: s.stored).lookup key' = some e.data := by
      intro key' e hne he
      rw [List.lookup_cons, beq_false_of_ne hne]
      exact hstored key' e he
    rcases hdata : fails .copyData with _ | _
    · rw [hdata, if_neg Bool.false_ne_true] at hgood
      obtain ⟨⟨c', threw⟩, l', hstore, hholds', hentries⟩ :=
        hholds.storeFailing hdata hgood data timeout gen
      refine ⟨c', l', ?_, hholds', ?_⟩
      · show (c.storeFailing settings fails now memory key data triggers timeout gen).map Prod.fst =
          some c'
        rw [hstore]
        rfl
      · intro key' e he
        rcases hentries _ he with ⟨rfl, rfl⟩ | ⟨hne, he⟩
        · exact List.lookup_cons_self
        · exact hlookup key' e hne he
    · rw [hdata, if_pos rfl] at hgood
      refine ⟨c, l, ?_, hholds, ?_⟩
      · show (c.storeFailing settings fails now memory key data triggers timeout gen).map Prod.fst =
          some c
        unfold MemCache.storeFailing
        rw [hdata, if_pos rfl]
        rfl
      · intro key' e he
        by_cases hkey : key' = key
        · subst hkey
          obtain ⟨a, hrep, rfl⟩ := hholds
          obtain ⟨⟨p, key'', e'⟩, hp, heq⟩ := List.mem_map.1 he
          obtain ⟨rfl, rfl⟩ := Prod.mk.inj heq
          obtain ⟨cont, hfind, hcont⟩ := hrep.find_eq_some hp
          obtain ⟨cont', hcont', hsame, -⟩ := hrep.entries _ _ _ hp
          obtain ⟨-, rfl⟩ := hrep.linked.entry_unique hcont hcont'
          have hdata' : cont'.data = data := hgood _ hfind
          rw [← hsame, hdata']
          exact List.lookup_cons_self
        · exact hlookup key' e hkey he
  | fetch now key =>
    obtain ⟨c', hfetch, hholds'⟩ := hholds.fetch_recounted now key
    have hop : c.applyFailing settings fails (.fetch now key) = some c' := by
      show (c.fetch now key).map Prod.fst = some c'
      rw [hfetch]
      rfl
    rw [hop]
    exact .of_subset hstored hholds' MemCache.fetchEntry_mem
  | rise trigger =>
    obtain ⟨c', hrise, hholds'⟩ := hholds.rise_recounted trigger
    have hop : c.applyFailing settings fails (.rise trigger) = some c' := by
      show ((c.rise trigger).map fun c => (c, none)).map Prod.fst = some c'
      rw [hrise]
      rfl
    rw [hop]
    exact .of_subset hstored hholds' fun y hy => (List.mem_filter.1 hy).1
  | remove key =>
    obtain ⟨a, hrep, rfl⟩ := hholds
    obtain ⟨c', hremove, hrep'⟩ := hrep.remove_recounted key
    have hop : c.applyFailing settings fails (.remove key) = some c' := by
      show ((c.remove key).map fun c => (c, none)).map Prod.fst = some c'
      rw [hremove]
      rfl
    rw [hop]
    refine .of_subset hstored ⟨_, hrep', rfl⟩ fun y hy => ?_
    obtain ⟨z, hz, rfl⟩ := List.mem_map.1 hy
    exact List.mem_map.2 ⟨z, (List.mem_filter.1 hz).1, rfl⟩
  | clear =>
    have hclear := MemCache.holds_clear c
    rw [← hclear.linked.recount] at hclear
    exact .of_subset hstored hclear fun y hy => by cases hy

/-- A fetch at the deadline of an entry gives its data. -/
lemma fetch_of_find {c c' : MemCache} {p : ℕ} {key key' : Bytes} {cont : Container}
    {r : Option Entry} (hfind : c.find key = some (p, key', cont)) {deadline : ℤ × ℕ}
    (htimeout : c.timeout.lookup cont.timeout = some deadline)
    (hfetch : c.fetch deadline.1 key = some (c', r)) : ∃ e, r = some e ∧ e.data = cont.data := by
  unfold MemCache.fetch at hfetch
  rw [hfind] at hfetch
  dsimp only at hfetch
  rw [htimeout, Option.bind_some, if_neg (lt_irrefl _)] at hfetch
  obtain ⟨lru, -, hnames⟩ := Option.bind_eq_some_iff.1 hfetch
  obtain ⟨names, -, heq⟩ := Option.map_eq_some_iff.1 hnames
  obtain ⟨-, rfl⟩ := Prod.mk.inj heq
  exact ⟨_, rfl, rfl⟩

/-- Only a good step keeps the promise. -/
lemma good_of_keeps (hnext : (s.step settings x).Keeps) : s.Good settings x := by
  obtain ⟨op, fails⟩ := x
  cases op with
  | store now memory key data triggers timeout gen =>
    obtain ⟨c', hcache', hlinked', hfetch'⟩ := hnext
    intro c hcache
    have hop : (c.storeFailing settings fails now memory key data triggers timeout gen).map
        Prod.fst = some c' := by
      unfold Stores.step at hcache'
      rw [hcache, Option.bind_some] at hcache'
      exact hcache'
    rcases hdata : fails .copyData with _ | _
    · rw [if_neg Bool.false_ne_true]
      intro hbreaks
      obtain ⟨y, hstore, hprimary, htriggers⟩ :=
        MemCache.storeFailing_breaks hbreaks hdata data timeout gen
      rw [hstore, Option.map_some] at hop
      obtain rfl := Option.some.inj hop
      obtain ⟨⟨t, name, cells⟩, ht⟩ := List.exists_mem_of_ne_nil _ htriggers
      obtain ⟨⟨cell, p⟩, hcell⟩ :=
        List.exists_mem_of_ne_nil _ (hlinked'.cells_ne_nil t name cells ht)
      obtain ⟨key', cont, hp, -⟩ := (hlinked'.triggers_iff t cell p).1 ⟨name, cells, ht, hcell⟩
      have hnone : (p, key', cont) ∈ y.1.primary := hp
      rw [hprimary] at hnone
      cases hnone
    · rw [if_pos rfl]
      rintro ⟨p, key', cont⟩ hfind
      unfold MemCache.storeFailing at hop
      rw [hdata, if_pos rfl, Option.map_some] at hop
      obtain rfl := Option.some.inj hop
      have hp : (p, key', cont) ∈ c.recount.primary := List.mem_of_find?_eq_some hfind
      obtain ⟨deadline, hdeadline⟩ := hlinked'.mem_timeout hp
      have htimeout : c.timeout.lookup cont.timeout = some (deadline, p) :=
        hlinked'.timeout_distinct.lookup hdeadline
      obtain ⟨c'', r, hfetch, hall⟩ := hfetch' key data List.lookup_cons_self deadline
      obtain ⟨e, he, hcont⟩ := fetch_of_find hfind htimeout hfetch
      exact hcont.symm.trans (hall e he)
  | fetch now key => trivial
  | rise trigger => trivial
  | remove key => trivial
  | clear => trivial

/-- In every run the containers agree with each other and each fetch gives what has been stored last
or nothing, if and only if every step is good. -/
theorem keeps_iff (settings : Settings) (pages : ℕ) (ops : List (Op × Failures)) :
    (∀ s ∈ Machine.states (step settings) (init pages) ops, s.Keeps) ↔
      Machine.Obeys (step settings) (Good settings) (init pages) ops := by
  constructor
  · intro hkeeps
    exact Machine.Obeys.of_states (Machine.obeys_of_forall (fun _ _ => trivial) (init pages) ops)
      hkeeps
      fun s x _ _ hnext => good_of_keeps hnext
  · intro hgood s hs
    exact (Machine.forall_mem_states (fun s x h hx => h.step hx) (sound_init pages)
      hgood s hs).keeps

/-- The data of the second `store` cannot be copied, and a fetch gives the data of the first one. -/
theorem not_keeps_copyData :
    ¬ ∀ s ∈ Machine.states (step ⟨none⟩) (init 0)
      [(.store 0 .enough (bytes "k") (bytes "1") ∅ 10 none, fun _ => false),
        (.store 0 .enough (bytes "k") (bytes "2") ∅ 10 none, fun place =>
          decide (place = .copyData))], s.Keeps := by
  intro hkeeps
  have hlast := hkeeps _ (Machine.foldl_mem_states _ _)
  have hold : ((([(.store 0 .enough (bytes "k") (bytes "1") ∅ 10 none, fun _ => false),
      (.store 0 .enough (bytes "k") (bytes "2") ∅ 10 none, fun place =>
        decide (place = .copyData))] :
      List (Op × Failures)).foldl (step ⟨none⟩) (init 0)).cache.bind fun c =>
      c.fetch 0 (bytes "k")).map
        (fun x => x.2.map Entry.data) = some (some (bytes "1")) := by
    decide
  obtain ⟨c, hcache, -, hfetch⟩ := hlast
  obtain ⟨c', r, hr, hall⟩ := hfetch (bytes "k") (bytes "2") (by decide) 0
  rw [hcache, Option.bind_some, hr, Option.map_some] at hold
  obtain ⟨e, he, hdata⟩ := Option.map_eq_some_iff.1 (Option.some.inj hold)
  have heq : bytes "1" = bytes "2" := hdata.symm.trans (hall e he)
  exact absurd heq (by decide)

end Stores

end Cache

end Cppcms
