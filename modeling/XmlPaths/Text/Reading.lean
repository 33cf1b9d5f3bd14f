/-!
# Reading from the front

A reader takes an item from the front of a list and leaves the rest of it.

* `readAll`     the items of a whole list;
* `readMany`    as many items as there are, and what follows them;
* `splitOn?`    what stands in front of and behind the first occurrence of a list in another.

A reader has to take something, otherwise nothing is read.
-/

namespace XmlPaths

variable {α β : Type}

/-- the items of a whole list, of which there are at most `n` -/
def readAllUpTo (take : List α → Option (β × List α)) : Nat → List α → Option (List β)
  | _, [] => some []
  | 0, _ :: _ => none
  | n + 1, a :: as =>
    match take (a :: as) with
    | none => none
    | some (b, rest) => (readAllUpTo take n rest).map (b :: ·)

def readAll (take : List α → Option (β × List α)) (as : List α) : Option (List β) :=
  readAllUpTo take as.length as

/-- the first items of a list, at most `n`, and what follows them -/
def readManyUpTo (take : List α → Option (β × List α)) : Nat → List α → List β × List α
  | 0, as => ([], as)
  | n + 1, as =>
    match take as with
    | none => ([], as)
    | some (b, rest) =>
      let (bs, rest') := readManyUpTo take n rest
      (b :: bs, rest')

def readMany (take : List α → Option (β × List α)) (as : List α) : List β × List α :=
  readManyUpTo take as.length as

/-- what stands in front of and behind the first occurrence of `needle` -/
def splitOn? [BEq α] (needle : List α) : List α → Option (List α × List α)
  | [] => if needle.isEmpty then some ([], []) else none
  | a :: as =>
    if needle.isPrefixOf (a :: as) then some ([], (a :: as).drop needle.length)
    else (splitOn? needle as).map fun (before, behind) => (a :: before, behind)

theorem readAllUpTo_nil (take : List α → Option (β × List α)) (n : Nat) :
    readAllUpTo take n [] = some [] := by
  cases n <;> rfl

/-- An occurrence that is found is one. -/
theorem eq_append_of_splitOn? [BEq α] [LawfulBEq α] {needle as before behind : List α}
    (h : splitOn? needle as = some (before, behind)) : as = before ++ needle ++ behind := by
  induction as generalizing before behind with
  | nil =>
    simp only [splitOn?] at h
    split at h
    · next he =>
      simp only [Option.some.injEq, Prod.mk.injEq] at h
      simp [← h.1, ← h.2, List.isEmpty_iff.1 he]
    · simp at h
  | cons a as ih =>
    simp only [splitOn?] at h
    split at h
    · next hp =>
      obtain ⟨t, ht⟩ := List.isPrefixOf_iff_prefix.1 hp
      simp only [Option.some.injEq, Prod.mk.injEq] at h
      rw [← h.1, ← h.2, ← ht]
      simp
    · obtain ⟨⟨b, e⟩, hs, hb⟩ := Option.map_eq_some_iff.1 h
      simp only [Prod.mk.injEq] at hb
      rw [← hb.1, ← hb.2, ih hs]
      simp

end XmlPaths
