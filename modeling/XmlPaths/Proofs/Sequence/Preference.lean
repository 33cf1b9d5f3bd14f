import XmlPaths.Sequence.Preference

/-!
# Preferred items are streamed

Items are worked through one after the other, each in a turn of its own: it is taken, tested, and
handed out at once if it satisfies the predicate.  All items are handed out behind these turns if
none does.

* `turn`                     what happens to one item;
* `preferenceFrom_cons`      one turn, and what is known from then on;
* `preferenceEvents_eq`      all turns, and what is left to be handed out behind them;
* `demand_append`            a consumer goes on when it has not got enough yet;
* `preferenceEvents_streams`   the items that are preferred, and what is done for each of them.
-/

namespace XmlPaths

variable {α : Type} (p : α → Bool)

/-- what happens to an item: it is handed out right behind its test, or not in its turn -/
def turn (x : α) : List (Event α) :=
  .pulled x :: .tested x :: if p x then [.handed x] else []

def pulledItems (es : List (Event α)) : List α :=
  es.filterMap fun
    | .pulled x => some x
    | _ => none

/-- what is handed out behind all turns: nothing if an item has satisfied the predicate -/
def leftOver (stash xs : List α) : List α := if xs.any p then [] else stash ++ xs

/-! ## all turns -/

/-- One turn: from the first item that satisfies the predicate on, nothing is kept. -/
theorem preferenceFrom_cons (stash : Option (List α)) (x : α) (xs : List α) :
    preferenceFrom p stash (x :: xs) =
      turn p x ++ preferenceFrom p (if p x then none else stash.map (· ++ [x])) xs := by
  rw [turn]
  cases h : p x <;> cases stash <;> simp [preferenceFrom, h]

theorem preferenceFrom_none (xs : List α) : preferenceFrom p none xs = xs.flatMap (turn p) := by
  induction xs with
  | nil => rfl
  | cons x xs ih => rw [preferenceFrom_cons, Option.map_none, ite_self, ih, List.flatMap_cons]

theorem preferenceFrom_some (stash xs : List α) :
    preferenceFrom p (some stash) xs =
      xs.flatMap (turn p) ++ (leftOver p stash xs).map .handed := by
  induction xs generalizing stash with
  | nil =>
    show stash.map Event.handed = (stash ++ []).map Event.handed
    rw [List.append_nil]
  | cons x xs ih =>
    rw [preferenceFrom_cons, List.flatMap_cons, List.append_assoc]
    congr 1
    cases h : p x with
    | true =>
      have hnothing : leftOver p stash (x :: xs) = [] := by
        rw [leftOver, List.any_cons, h, Bool.true_or, if_pos rfl]
      rw [if_pos rfl, preferenceFrom_none, hnothing, List.map_nil, List.append_nil]
    | false =>
      have hkept : leftOver p stash (x :: xs) = leftOver p (stash ++ [x]) xs := by
        rw [leftOver, leftOver, List.any_cons, h, Bool.false_or, List.append_assoc,
          List.singleton_append]
      rw [if_neg (by simp), Option.map_some, ih, hkept]

/-- All that happens: a turn for each item, and what is left to be handed out then. -/
theorem preferenceEvents_eq (xs : List α) :
    preferenceEvents p xs = xs.flatMap (turn p) ++ (leftOver p [] xs).map .handed :=
  preferenceFrom_some p [] xs

/-! ## what the events hold -/

section
variable (es es' : List (Event α)) (xs : List α)

theorem pulledItems_append : pulledItems (es ++ es') = pulledItems es ++ pulledItems es' :=
  List.filterMap_append

theorem testedItems_append : testedItems (es ++ es') = testedItems es ++ testedItems es' :=
  List.filterMap_append

theorem handedItems_append : handedItems (es ++ es') = handedItems es ++ handedItems es' :=
  List.filterMap_append

theorem pulledItems_turns : pulledItems (xs.flatMap (turn p)) = xs := by
  induction xs with
  | nil => rfl
  | cons x xs ih =>
    rw [List.flatMap_cons, pulledItems_append, ih, turn]
    cases p x <;> rfl

theorem testedItems_turns : testedItems (xs.flatMap (turn p)) = xs := by
  induction xs with
  | nil => rfl
  | cons x xs ih =>
    rw [List.flatMap_cons, testedItems_append, ih, turn]
    cases p x <;> rfl

theorem handedItems_turns : handedItems (xs.flatMap (turn p)) = xs.filter p := by
  induction xs with
  | nil => rfl
  | cons x xs ih =>
    rw [List.flatMap_cons, handedItems_append, ih, turn]
    cases h : p x with
    | true => rw [List.filter_cons_of_pos h]; rfl
    | false => rw [List.filter_cons_of_neg (by simp [h])]; rfl

theorem pulledItems_handed : pulledItems (xs.map .handed) = [] := by
  induction xs with
  | nil => rfl
  | cons x xs ih => exact ih

theorem testedItems_handed : testedItems (xs.map .handed) = [] := by
  induction xs with
  | nil => rfl
  | cons x xs ih => exact ih

theorem handedItems_handed : handedItems (xs.map .handed) = xs := by
  induction xs with
  | nil => rfl
  | cons x xs ih => exact congrArg (x :: ·) ih

end

/-! ## what a consumer sees -/

section
variable {p}

/-- A consumer that has not got enough from the first events goes on with the next ones. -/
theorem demand_append {n : Nat} {es : List (Event α)} (h : (handedItems es).length ≤ n)
    (es' : List (Event α)) :
    demand n (es ++ es') = es ++ demand (n - (handedItems es).length) es' := by
  induction es generalizing n with
  | nil => rfl
  | cons e es ih =>
    cases e with
    | pulled x => exact congrArg (Event.pulled x :: ·) (ih h)
    | tested x => exact congrArg (Event.tested x :: ·) (ih h)
    | handed x =>
      have hlength : (handedItems (.handed x :: es)).length = (handedItems es).length + 1 := rfl
      rw [hlength] at h ⊢
      obtain ⟨m, rfl⟩ : ∃ m, n = m + 1 := ⟨n - 1, by omega⟩
      rw [Nat.add_sub_add_right]
      exact congrArg (Event.handed x :: ·) (ih (by omega))

theorem demand_of_length_le {n : Nat} {es : List (Event α)} (h : (handedItems es).length ≤ n) :
    demand n es = es := by
  have hall := demand_append h []
  rwa [List.append_nil, demand, List.append_nil] at hall

theorem demand_handed (n : Nat) (xs : List α) :
    demand n (xs.map .handed) = (xs.take (n + 1)).map .handed := by
  induction xs generalizing n with
  | nil => rfl
  | cons x xs ih =>
    cases n with
    | zero => rfl
    | succ n => exact congrArg (Event.handed x :: ·) (ih n)

/-- A consumer has got the item of a turn as soon as that turn ends. -/
theorem demand_turns {before : List α} {x : α} (hx : p x = true) (es : List (Event α)) :
    demand (before.filter p).length (before.flatMap (turn p) ++ (turn p x ++ es)) =
      (before ++ [x]).flatMap (turn p) := by
  have hlength : (handedItems (before.flatMap (turn p))).length = (before.filter p).length := by
    rw [handedItems_turns]
  rw [demand_append (Nat.le_of_eq hlength), hlength, Nat.sub_self, List.flatMap_append,
    List.flatMap_singleton, turn, if_pos hx]
  rfl

/-- The item of a list that has a given number of others of its kind in front of it. -/
theorem exists_split_of_lt_length_filter {n : Nat} {xs : List α} (h : n < (xs.filter p).length) :
    ∃ before x after, xs = before ++ x :: after ∧ p x = true ∧ (before.filter p).length = n := by
  induction xs generalizing n with
  | nil => exact absurd h (Nat.not_lt_zero n)
  | cons y ys ih =>
    cases hy : p y with
    | false =>
      rw [List.filter_cons_of_neg (by simp [hy])] at h
      obtain ⟨before, x, after, rfl, hx, hn⟩ := ih h
      refine ⟨y :: before, x, after, rfl, hx, ?_⟩
      rw [List.filter_cons_of_neg (by simp [hy]), hn]
    | true =>
      rw [List.filter_cons_of_pos hy, List.length_cons] at h
      cases n with
      | zero => exact ⟨[], y, ys, rfl, hy, rfl⟩
      | succ n =>
        obtain ⟨before, x, after, rfl, hx, hn⟩ := ih (Nat.lt_of_succ_lt_succ h)
        refine ⟨y :: before, x, after, rfl, hx, ?_⟩
        rw [List.filter_cons_of_pos hy, List.length_cons, hn]

end

/-- **Preferred items are streamed.**  Worked through to the end, a sequence gives the items that
satisfy the predicate, all items if none does; each item is taken once and tested once, in order.

A consumer that has got `n` items and asks for one more has it, as long as one is left that
satisfies the predicate, as soon as that one has been tested: nothing behind it has been taken.  If
no further one is left, all items have been taken and tested when the sequence ends.  If none
satisfies the predicate, all items have been taken and tested before the first one is handed out. -/
theorem preferenceEvents_streams (xs : List α) :
    preferred p xs = (if xs.any p then xs.filter p else xs) ∧
    pulledItems (preferenceEvents p xs) = xs ∧ testedItems (preferenceEvents p xs) = xs ∧
    (∀ n, n < (xs.filter p).length → ∃ before x after, xs = before ++ x :: after ∧ p x = true ∧
      (before.filter p).length = n ∧
      demand n (preferenceEvents p xs) = (before ++ [x]).flatMap (turn p)) ∧
    (xs.any p = true → ∀ n, (xs.filter p).length ≤ n →
      demand n (preferenceEvents p xs) = xs.flatMap (turn p)) ∧
    (xs.any p = false → ∀ n, demand n (preferenceEvents p xs) =
      xs.flatMap (turn p) ++ (xs.take (n + 1)).map .handed) := by
  have hsome (h : xs.any p = true) : leftOver p [] xs = [] := if_pos h
  have hnone (h : xs.any p = false) : leftOver p [] xs = xs := if_neg (by simp [h])
  have hnothing (h : xs.any p = false) : xs.filter p = [] := by
    rw [List.filter_eq_nil_iff]
    exact List.any_eq_false.1 h
  rw [preferred, preferenceEvents_eq]
  refine ⟨?_, ?_, ?_, fun n hn => ?_, fun h n hn => ?_, fun h n => ?_⟩
  · rw [handedItems_append, handedItems_turns, handedItems_handed]
    cases h : xs.any p with
    | true => rw [hsome h, List.append_nil, if_pos rfl]
    | false => rw [hnone h, hnothing h, List.nil_append, if_neg (by simp)]
  · rw [pulledItems_append, pulledItems_turns, pulledItems_handed, List.append_nil]
  · rw [testedItems_append, testedItems_turns, testedItems_handed, List.append_nil]
  · obtain ⟨before, x, after, hxs, hx, rfl⟩ := exists_split_of_lt_length_filter hn
    refine ⟨before, x, after, hxs, hx, rfl, ?_⟩
    have hturns : xs.flatMap (turn p) =
        before.flatMap (turn p) ++ (turn p x ++ after.flatMap (turn p)) := by
      rw [hxs, List.flatMap_append, List.flatMap_cons]
    rw [hturns, List.append_assoc, List.append_assoc, demand_turns hx]
  · rw [hsome h, List.map_nil, List.append_nil]
    refine demand_of_length_le ?_
    rwa [handedItems_turns]
  · have hlength : (handedItems (xs.flatMap (turn p))).length = 0 := by
      rw [handedItems_turns, hnothing h, List.length_nil]
    rw [hnone h, demand_append (by omega), hlength, Nat.sub_zero, demand_handed]

/-- Of five numbers the two even ones are handed out.  A third one is only known to be missing when
all five have been tested; of two odd numbers the first one is handed out behind both tests. -/
theorem preferenceEvents_streams_even :
    preferred (· % 2 == 0) [1, 2, 3, 4, 5] = [2, 4] ∧
    demand 2 (preferenceEvents (· % 2 == 0) [1, 2, 3, 4, 5]) =
      [1, 2, 3, 4, 5].flatMap (turn (· % 2 == 0)) ∧
    demand 0 (preferenceEvents (· % 2 == 0) [1, 3]) =
      [.pulled 1, .tested 1, .pulled 3, .tested 3, .handed 1] := by
  obtain ⟨hall, -, -, -, hend, -⟩ := preferenceEvents_streams (· % 2 == 0) [1, 2, 3, 4, 5]
  obtain ⟨-, -, -, -, -, hnone⟩ := preferenceEvents_streams (· % 2 == 0) [1, 3]
  exact ⟨hall, hend (by decide) 2 (by decide), hnone (by decide) 0⟩

end XmlPaths
