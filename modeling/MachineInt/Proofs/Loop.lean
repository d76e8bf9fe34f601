import MachineInt.Proofs.Operation
import MachineInt.Word.Loop

/-!
# Counting loops

What `Word.times` does, pass by pass. A run (`LoopRun`) tests the index, calls the body and adds one
with wrapping; a loop that goes on for ever has no run. Every loop has exactly one:

* `range`: the words below the bound in ascending order, which are the integers from zero on
  (`map_toInt_range`), since the index never wraps below the bound (`toInt_add_one`).
* `visit`: the calls of a body that gets the entries of a list in turn until it leaves.
* `loopRun_iff`, `timesFrom_eq_visit`: the run of a loop, and its result.
* `FirstToLeave.visit`, `LeavesAfter.visit`: how often a body is called that leaves after a number
  of calls, which the calls or the state may count, as the body behind a tally does.
* `times_counts_up`: all of it, `CountsUp` for the one run and `LoopLaws` for the loop.
-/

set_option autoImplicit false

namespace MachineInt

/-! ## Bodies and lists -/

section Visit

variable {α σ : Type} {body : α → σ → ForInStep σ}

/-- The calls of a `body` that gets the entries of a list until it leaves, each with the state it is
given, and how the last call ended. -/
def visit (body : α → σ → ForInStep σ) : List α → σ → List (α × σ) × ForInStep σ
  | [], s => ([], .yield s)
  | i :: rest, s =>
    match body i s with
    | .done t => ([(i, s)], .done t)
    | .yield t => ((i, s) :: (visit body rest t).1, (visit body rest t).2)

theorem visit_cons_done {i : α} {s t : σ} (h : body i s = .done t) (rest : List α) :
    visit body (i :: rest) s = ([(i, s)], .done t) := by
  rw [visit, h]

theorem visit_cons_yield {i : α} {s t : σ} (h : body i s = .yield t) (rest : List α) :
    visit body (i :: rest) s = ((i, s) :: (visit body rest t).1, (visit body rest t).2) := by
  rw [visit, h]

/-- The body is called on the first entries of `xs`, and on all of them unless it leaves. -/
theorem map_fst_visit (body : α → σ → ForInStep σ) (xs : List α) (s : σ) :
    (visit body xs s).1.map Prod.fst <+: xs ∧
      ∀ t, (visit body xs s).2 = .yield t → (visit body xs s).1.map Prod.fst = xs := by
  induction xs generalizing s with
  | nil => exact ⟨List.prefix_rfl, fun _ _ => rfl⟩
  | cons i rest ih =>
    cases h : body i s with
    | done t =>
      rw [visit_cons_done h]
      refine ⟨⟨rest, rfl⟩, ?_⟩
      rintro _ ⟨⟩
    | yield t =>
      obtain ⟨hpre, hall⟩ := ih t
      rw [visit_cons_yield h]
      refine ⟨(List.prefix_cons_inj i).2 hpre, fun u hu => ?_⟩
      exact congrArg (i :: ·) (hall u hu)

/-- An invariant `P` of the calls that go on holds at the end, and `Q`, which every last call brings
about from it, after leaving. -/
theorem visit_ending {P Q : σ → Prop} (hyield : ∀ i s t, P s → body i s = .yield t → P t)
    (hdone : ∀ i s t, P s → body i s = .done t → Q t) (xs : List α) {s : σ} (hs : P s) :
    (∀ t, (visit body xs s).2 = .yield t → P t) ∧ ∀ t, (visit body xs s).2 = .done t → Q t := by
  induction xs generalizing s with
  | nil =>
    refine ⟨?_, ?_⟩
    · rintro _ ⟨⟩
      exact hs
    · rintro _ ⟨⟩
  | cons i rest ih =>
    cases h : body i s with
    | done t =>
      rw [visit_cons_done h]
      refine ⟨?_, ?_⟩
      · rintro _ ⟨⟩
      · rintro _ ⟨⟩
        exact hdone i s t hs h
    | yield t =>
      rw [visit_cons_yield h]
      exact ih (hyield i s t hs h)

def goesOn (body : α → σ → ForInStep σ) (call : α × σ) : Bool :=
  match body call.1 call.2 with
  | .done _ => false
  | .yield _ => true

theorem goesOn_of_done {i : α} {s t : σ} (h : body i s = .done t) :
    goesOn body (i, s) = false := by
  simp only [goesOn, h]

theorem goesOn_of_yield {i : α} {s t : σ} (h : body i s = .yield t) :
    goesOn body (i, s) = true := by
  simp only [goesOn, h]

/-- Among `calls`, the one after `limit` others leaves, and no other does. -/
def FirstToLeave (body : α → σ → ForInStep σ) (calls : List (α × σ)) (limit : Nat) : Prop :=
  ∀ j call, calls[j]? = some call → (goesOn body call = false ↔ j = limit)

theorem FirstToLeave.visit {limit : Nat} (xs : List α) {s : σ}
    (h : FirstToLeave body (visit body xs s).1 limit) :
    (visit body xs s).1.length = min (limit + 1) xs.length ∧
      (visit body xs s).1.countP (goesOn body) = min limit xs.length ∧
      ((∃ t, (visit body xs s).2 = .done t) ↔ limit < xs.length) := by
  -- each call that goes on takes one entry from the list and one from the limit
  induction xs generalizing s limit with
  | nil => simp [MachineInt.visit]
  | cons i rest ih =>
    rw [List.length_cons]
    cases hbody : body i s with
    | done t =>
      rw [visit_cons_done hbody] at h ⊢
      have hgoes := goesOn_of_done hbody
      obtain rfl : 0 = limit := (h 0 (i, s) rfl).1 hgoes
      refine ⟨by simp, ?_, iff_of_true ⟨t, rfl⟩ (by omega)⟩
      rw [List.countP_cons_of_neg (by simp [hgoes])]
      simp
    | yield t =>
      rw [visit_cons_yield hbody] at h ⊢
      have hgoes := goesOn_of_yield hbody
      have hne : 0 ≠ limit := fun heq => by simp [(h 0 (i, s) rfl).2 heq] at hgoes
      obtain ⟨m, rfl⟩ : ∃ m, limit = m + 1 := ⟨limit - 1, by omega⟩
      have hrest : FirstToLeave body (MachineInt.visit body rest t).1 m := by
        intro j call hj
        rw [h (j + 1) call hj, Nat.add_right_cancel_iff]
      obtain ⟨hlen, hcount, hleft⟩ := ih hrest
      refine ⟨?_, ?_, ?_⟩
      · rw [List.length_cons, hlen]
        omega
      · rw [List.countP_cons_of_pos hgoes, hcount]
        omega
      · rw [hleft]
        omega

/-- The state knows the number of calls that went on, and the call after `limit` of them leaves. -/
structure LeavesAfter (body : α → σ → ForInStep σ) (count : σ → Nat) (limit : Nat) : Prop where
  goes : ∀ i s, count s < limit → ∃ t, body i s = .yield t ∧ count t = count s + 1
  leaves : ∀ i s, count s = limit → ∃ t, body i s = .done t ∧ count t = count s

theorem LeavesAfter.calls {count : σ → Nat} {limit : Nat} (h : LeavesAfter body count limit)
    (xs : List α) {s : σ} (hs : count s ≤ limit) :
    FirstToLeave body (visit body xs s).1 (limit - count s) ∧
      count (visit body xs s).2.value =
        count s + (visit body xs s).1.countP (goesOn body) := by
  -- each call that goes on takes one from the calls that are left, and the state counts it
  induction xs generalizing s with
  | nil => exact ⟨by rintro _ _ ⟨⟩, rfl⟩
  | cons i rest ih =>
    obtain hlt | heq := Nat.lt_or_eq_of_le hs
    · obtain ⟨t, hbody, hcount⟩ := h.goes i s hlt
      obtain ⟨hfirst, hend⟩ := ih (s := t) (by omega)
      rw [visit_cons_yield hbody]
      have hgoes := goesOn_of_yield hbody
      refine ⟨fun j call hj => ?_, ?_⟩
      · cases j with
        | zero =>
          obtain rfl : (i, s) = call := Option.some.inj hj
          exact iff_of_false (by simp [hgoes]) (by omega)
        | succ j =>
          rw [hfirst j call hj]
          omega
      · rw [List.countP_cons_of_pos hgoes, hend]
        omega
    · obtain ⟨t, hbody, hcount⟩ := h.leaves i s heq
      rw [visit_cons_done hbody]
      have hgoes := goesOn_of_done hbody
      refine ⟨fun j call hj => ?_, ?_⟩
      · cases j with
        | zero =>
          obtain rfl : (i, s) = call := Option.some.inj hj
          exact iff_of_true hgoes (by omega)
        | succ j => cases hj
      · rw [List.countP_cons_of_neg (by simp [hgoes])]
        exact hcount

theorem LeavesAfter.visit {count : σ → Nat} {limit : Nat} (h : LeavesAfter body count limit)
    (xs : List α) {s : σ} (hs : count s = 0) :
    (visit body xs s).1.length = min (limit + 1) xs.length ∧
      count (visit body xs s).2.value = min limit xs.length ∧
      ((∃ t, (visit body xs s).2 = .done t) ↔ limit < xs.length) := by
  obtain ⟨hfirst, hend⟩ := h.calls xs (s := s) (by omega)
  rw [hs, Nat.sub_zero] at hfirst
  obtain ⟨hlength, hcount, hleft⟩ := hfirst.visit
  rw [hs, Nat.zero_add, hcount] at hend
  exact ⟨hlength, hend, hleft⟩

end Visit

namespace Word

variable {k : Kind} {σ : Type} {n i : Word k} {body : Word k → σ → ForInStep σ} {s : σ}

/-! ## Indices -/

theorem next_eq_add_one (a : Word k) : a.next = a + (one : Word k) := by
  show (⟨a.bits + 1#k.bits⟩ : Word k) = ⟨a.bits + ((one : Word k).cast k).bits⟩
  rw [cast_self]
  rfl

/-- **The index never wraps**: adding one below the bound `n` adds one to the integer. -/
theorem toInt_add_one (h : i < n) : (i + (one : Word k)).toInt = i.toInt + 1 := by
  rw [← next_eq_add_one, toInt_next h]

/-- The words from `i` up to, but excluding, `n` in ascending order. -/
def range (i n : Word k) : List (Word k) :=
  (List.range (n.toInt - i.toInt).toNat).map fun j : Nat => ofInt (i.toInt + j)

theorem range_of_not_lt (h : ¬i < n) : range i n = [] := by
  rw [lt_iff_toInt] at h
  rw [range, Int.toNat_of_nonpos (by omega)]
  rfl

theorem range_of_lt (h : i < n) : range i n = i :: range (i + (one : Word k)) n := by
  have hlt := (lt_iff_toInt i n).1 h
  obtain ⟨d, hd⟩ : ∃ d : Nat, (n.toInt - i.toInt).toNat = d + 1 :=
    ⟨(n.toInt - i.toInt).toNat - 1, by omega⟩
  unfold range
  rw [toInt_add_one h, show (n.toInt - (i.toInt + 1)).toNat = d by omega, hd,
    List.range_succ_eq_map, List.map_cons, List.map_map, Int.natCast_zero, Int.add_zero,
    ofInt_toInt]
  congr 1
  apply List.map_congr_left
  intro j _
  show ofInt (i.toInt + (j + 1 : Nat)) = ofInt (i.toInt + 1 + j)
  rw [Int.natCast_succ, Int.add_assoc, Int.add_comm 1]

theorem map_toInt_range (i n : Word k) :
    (range i n).map toInt =
      (List.range (n.toInt - i.toInt).toNat).map fun j : Nat => i.toInt + j := by
  unfold range
  rw [List.map_map]
  apply List.map_congr_left
  intro j hj
  have hlt := List.mem_range.1 hj
  have hi := i.toInt_represents
  have hn := n.toInt_represents
  exact toInt_ofInt_of_represents ⟨by have := hi.1; omega, by have := hn.2; omega⟩

theorem map_toInt_range_zero (n : Word k) :
    (range zero n).map toInt = (List.range n.toInt.toNat).map Nat.cast := by
  rw [map_toInt_range, toInt_zero, Int.sub_zero]
  simp only [Int.zero_add]

theorem length_range_zero (n : Word k) : (range zero n).length = n.toInt.toNat := by
  rw [← List.length_map (f := toInt), map_toInt_range_zero, List.length_map, List.length_range]

/-! ## Runs -/

/-- **A run of the loop** from index `i` and state `s`: the calls of the body, each with its index
and the state it is given, and how the last call ended. -/
inductive LoopRun (n : Word k) (body : Word k → σ → ForInStep σ) :
    Word k → σ → List (Word k × σ) → ForInStep σ → Prop
  | finish {i : Word k} {s : σ} : ¬i < n → LoopRun n body i s [] (.yield s)
  | leave {i : Word k} {s t : σ} : i < n → body i s = .done t →
      LoopRun n body i s [(i, s)] (.done t)
  | next {i : Word k} {s t : σ} {calls : List (Word k × σ)} {e : ForInStep σ} : i < n →
      body i s = .yield t → LoopRun n body (i + (one : Word k)) t calls e →
      LoopRun n body i s ((i, s) :: calls) e

theorem LoopRun.eq_visit {calls : List (Word k × σ)} {e : ForInStep σ}
    (h : LoopRun n body i s calls e) : (calls, e) = visit body (range i n) s := by
  induction h with
  | finish hlt =>
    rw [range_of_not_lt hlt]
    rfl
  | leave hlt hbody => rw [range_of_lt hlt, visit_cons_done hbody]
  | next hlt hbody _ ih => rw [range_of_lt hlt, visit_cons_yield hbody, ← ih]

theorem timesFrom_of_not_lt (h : ¬i < n) : timesFrom n body i s = s := by
  rw [timesFrom, dif_neg h]

theorem timesFrom_of_done {t : σ} (h : i < n) (hbody : body i s = .done t) :
    timesFrom n body i s = t := by
  rw [timesFrom, dif_pos h, hbody]

theorem timesFrom_of_yield {t : σ} (h : i < n) (hbody : body i s = .yield t) :
    timesFrom n body i s = timesFrom n body (i + (one : Word k)) t := by
  rw [timesFrom, dif_pos h, hbody, next_eq_add_one]

/-- **Every loop ends**, and its result is the state of the `LoopRun`. -/
theorem exists_loopRun (n : Word k) (body : Word k → σ → ForInStep σ) (i : Word k) (s : σ) :
    ∃ calls e, LoopRun n body i s calls e ∧ timesFrom n body i s = e.value := by
  -- the distance from the index to the bound gets smaller in each pass, for the index never wraps
  induction hd : (n.toInt - i.toInt).toNat generalizing i s with
  | zero =>
    have hlt : ¬i < n := by
      rw [lt_iff_toInt]
      omega
    exact ⟨_, _, .finish hlt, timesFrom_of_not_lt hlt⟩
  | succ d ih =>
    have hlt : i < n := by
      rw [lt_iff_toInt]
      omega
    cases hbody : body i s with
    | done t => exact ⟨_, _, .leave hlt hbody, timesFrom_of_done hlt hbody⟩
    | yield t =>
      have hnext := toInt_add_one hlt
      obtain ⟨calls, e, hrun, hvalue⟩ := ih (i + (one : Word k)) t (by omega)
      exact ⟨_, _, .next hlt hbody hrun, (timesFrom_of_yield hlt hbody).trans hvalue⟩

theorem loopRun_iff {calls : List (Word k × σ)} {e : ForInStep σ} :
    LoopRun n body i s calls e ↔ (calls, e) = visit body (range i n) s := by
  refine ⟨LoopRun.eq_visit, fun h => ?_⟩
  obtain ⟨calls', e', hrun, -⟩ := exists_loopRun n body i s
  obtain ⟨rfl, rfl⟩ := Prod.mk.inj (h.trans hrun.eq_visit.symm)
  exact hrun

theorem timesFrom_eq_visit (n : Word k) (body : Word k → σ → ForInStep σ) (i : Word k) (s : σ) :
    timesFrom n body i s = (visit body (range i n) s).2.value := by
  obtain ⟨calls, e, hrun, hvalue⟩ := exists_loopRun n body i s
  rw [hvalue, ← hrun.eq_visit]

theorem times_eq_visit (n : Word k) (body : Word k → σ → ForInStep σ) (s : σ) :
    n.times body s = (visit body (range zero n) s).2.value :=
  timesFrom_eq_visit n body zero s

/-- What a body comes to over a list is what the `for` loop over the list comes to. -/
theorem value_visit (body : Word k → σ → ForInStep σ) (xs : List (Word k)) (s : σ) :
    (visit body xs s).2.value = Id.run (forIn xs s fun i t => pure (body i t)) := by
  induction xs generalizing s with
  | nil => rfl
  | cons i rest ih =>
    rw [List.forIn_cons, pure_bind]
    cases h : body i s with
    | done t =>
      rw [visit_cons_done h]
      rfl
    | yield t =>
      rw [visit_cons_yield h]
      exact ih t

end Word

/-! ## Tallies -/

namespace Tally

variable {k : Kind}

/-- The body behind `Tally.upTo`. -/
def visitor (limit : Nat) (i : Word k) (t : Tally k) : ForInStep (Tally k) :=
  if t.count < limit then .yield (t.add i) else .done { t with stopped := true }

theorem upTo_eq (n : Word k) (limit : Nat) : upTo n limit = n.times (visitor limit) empty := rfl

theorem leavesAfter_visitor (limit : Nat) :
    LeavesAfter (visitor (k := k) limit) count limit where
  goes i t h := ⟨t.add i, if_pos h, rfl⟩
  leaves i t h := ⟨{ t with stopped := true }, if_neg (by omega), rfl⟩

variable {limit : Nat} {i : Word k} {t u : Tally k}

theorem stopped_of_yield (ht : t.stopped = false) (h : visitor limit i t = .yield u) :
    u.stopped = false := by
  unfold visitor at h
  split at h <;> cases h
  exact ht

theorem stopped_of_done (h : visitor limit i t = .done u) : u.stopped = true := by
  unfold visitor at h
  split at h <;> cases h
  rfl

theorem stopped_visit_iff (limit : Nat) (xs : List (Word k)) :
    (visit (visitor limit) xs empty).2.value.stopped = true ↔
      ∃ t, (visit (visitor limit) xs empty).2 = .done t := by
  obtain ⟨hover, hleft⟩ :
      (∀ t, (visit (visitor limit) xs empty).2 = .yield t → t.stopped = false) ∧
        ∀ t, (visit (visitor limit) xs empty).2 = .done t → t.stopped = true :=
    visit_ending (fun _ _ _ => stopped_of_yield) (fun _ _ _ _ => stopped_of_done) xs rfl
  cases he : (visit (visitor limit) xs empty).2 with
  | done t => exact iff_of_true (hleft t he) ⟨t, rfl⟩
  | yield t =>
    refine iff_of_false ?_ (by rintro ⟨_, ⟨⟩⟩)
    show ¬t.stopped = true
    simp [hover t he]

end Tally

namespace Word

variable {k : Kind} {σ : Type}

/-- The calls of the body in the run of `n.times body s`, and how the run ends. -/
structure CountsUp (n : Word k) (body : Word k → σ → ForInStep σ) (s : σ)
    (calls : List (Word k × σ)) (e : ForInStep σ) : Prop where
  run_iff (calls' : List (Word k × σ)) (e' : ForInStep σ) :
    LoopRun n body zero s calls' e' ↔ calls' = calls ∧ e' = e
  visits : (calls, e) = visit body (range zero n) s
  value : n.times body s = e.value
  first_indices : calls.map Prod.fst <+: range zero n
  all_indices (t : σ) (h : e = .yield t) : calls.map Prod.fst = range zero n
  no_call (h : n.toInt ≤ 0) : calls = [] ∧ e = .yield s
  firstToLeave (limit : Nat) (h : FirstToLeave body calls limit) :
    calls.length = min (limit + 1) n.toInt.toNat ∧
      calls.countP (goesOn body) = min limit n.toInt.toNat ∧
      ((∃ t, e = .done t) ↔ limit < n.toInt.toNat)
  leavesAfter (count : σ → Nat) (limit : Nat) (h : LeavesAfter body count limit)
    (hs : count s = 0) :
    calls.length = min (limit + 1) n.toInt.toNat ∧
      count e.value = min limit n.toInt.toNat ∧
      ((∃ t, e = .done t) ↔ limit < n.toInt.toNat)

/-- The loop of `n.times body s`: its one run (`CountsUp`), the same as a `for` loop over the words
below `n`, whose integers are listed without a gap and without wrapping. -/
structure LoopLaws (n : Word k) (body : Word k → σ → ForInStep σ) (s : σ) : Prop where
  run : ∃ calls e, CountsUp n body s calls e
  forIn : n.times body s = Id.run (forIn (range zero n) s fun i t => pure (body i t))
  indices : (range zero n).map toInt = (List.range n.toInt.toNat).map Nat.cast
  bound : (n.toInt.toNat : Int) = max n.toInt 0
  no_wrap (i : Word k) (h : i < n) : (i + (one : Word k)).toInt = i.toInt + 1
  count_upTo (limit : Nat) : (Tally.upTo n limit).count = min limit n.toInt.toNat
  stopped_upTo (limit : Nat) : (Tally.upTo n limit).stopped = true ↔ limit < n.toInt.toNat

theorem countsUp_visit (n : Word k) (body : Word k → σ → ForInStep σ) (s : σ) :
    CountsUp n body s (visit body (range zero n) s).1 (visit body (range zero n) s).2 where
  run_iff calls' e' := by rw [loopRun_iff, Prod.ext_iff]
  visits := rfl
  value := times_eq_visit n body s
  first_indices := (map_fst_visit body (range zero n) s).1
  all_indices := (map_fst_visit body (range zero n) s).2
  no_call hle := by
    rw [range_of_not_lt (by rw [lt_iff_toInt, toInt_zero]; omega)]
    exact ⟨rfl, rfl⟩
  firstToLeave limit h := by
    have hvisit := h.visit (range zero n)
    rwa [length_range_zero] at hvisit
  leavesAfter count limit h hs := by
    have hvisit := h.visit (range zero n) hs
    rwa [length_range_zero] at hvisit

theorem upTo_counts (n : Word k) (limit : Nat) :
    (Tally.upTo n limit).count = min limit n.toInt.toNat ∧
      ((Tally.upTo n limit).stopped = true ↔ limit < n.toInt.toNat) := by
  obtain ⟨-, hcount, hleft⟩ :=
    (Tally.leavesAfter_visitor limit).visit (range zero n) (s := Tally.empty) rfl
  rw [Tally.upTo_eq, times_eq_visit, Tally.stopped_visit_iff, hcount, hleft, length_range_zero]
  exact ⟨rfl, Iff.rfl⟩

/-- **A counting loop ends and counts exactly**, whatever the bound and the body: `LoopLaws`. -/
theorem times_counts_up (n : Word k) (body : Word k → σ → ForInStep σ) (s : σ) :
    LoopLaws n body s where
  run := ⟨_, _, countsUp_visit n body s⟩
  forIn := (times_eq_visit n body s).trans (value_visit body _ s)
  indices := map_toInt_range_zero n
  bound := Int.toNat_eq_max n.toInt
  no_wrap _ := toInt_add_one
  count_upTo limit := (upTo_counts n limit).1
  stopped_upTo limit := (upTo_counts n limit).2

theorem times_counts_up_greatest :
    (LeavesAfter (Tally.visitor 5) (Tally.count (k := .u128)) 5 ∧
      (Tally.empty : Tally .u128).count = 0 ∧
      ∃ calls t,
        LoopRun (greatest : Word .u128) (Tally.visitor 5) zero Tally.empty calls (.done t) ∧
        calls.length = 6) ∧
    ((ofInt (-3) : Word .i8).toInt ≤ 0 ∧
      LoopRun (ofInt (-3) : Word .i8) (Tally.visitor 5) zero Tally.empty [] (.yield Tally.empty)) ∧
    (ofInt (Kind.i128.greatest - 1) : Word .i128) < greatest ∧
      ((ofInt (Kind.i128.greatest - 1) : Word .i128) + (one : Word .i128)).toInt =
        Kind.i128.greatest := by
  have hbody := Tally.leavesAfter_visitor (k := .u128) 5
  have hneg : (ofInt (-3) : Word .i8).toInt ≤ 0 := by decide
  have hlast : (ofInt (Kind.i128.greatest - 1) : Word .i128) < greatest := by decide
  obtain ⟨calls, e, hrun⟩ :=
    (times_counts_up (greatest : Word .u128) (Tally.visitor 5) Tally.empty).run
  obtain ⟨hlength, -, hleft⟩ := hrun.leavesAfter Tally.count 5 hbody rfl
  obtain ⟨t, rfl⟩ := hleft.2 (by decide)
  obtain ⟨calls', e', hrun'⟩ :=
    (times_counts_up (ofInt (-3) : Word .i8) (Tally.visitor 5) Tally.empty).run
  obtain ⟨rfl, rfl⟩ := hrun'.no_call hneg
  have hnext := (times_counts_up (greatest : Word .i128) (Tally.visitor 5) Tally.empty).no_wrap
  exact ⟨⟨hbody, rfl, calls, t, (hrun.run_iff _ _).2 ⟨rfl, rfl⟩, hlength.trans (by decide)⟩,
    ⟨hneg, (hrun'.run_iff _ _).2 ⟨rfl, rfl⟩⟩, hlast, (hnext _ hlast).trans (by decide)⟩

end Word

end MachineInt
