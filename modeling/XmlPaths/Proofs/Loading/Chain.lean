import Mathlib.Data.List.InsertIdx
import Mathlib.Data.List.Nodup
import XmlPaths.Loading.Chain

/-!
# What a chain of loaders does

A chain is made by additions, and a source is handed to its loaders one after the other.  A loader
is a computation on a state `σ` of the world around it, with which it may do what it likes.  The
chain that is being walked is no part of that world: a loader can't alter it.

* `add_eq_insertIdx`    an addition is an insertion, at the end or at the clamped position;
* `addAll_perm`         additions lose and repeat no loader;
* `sublist_addAll`      additions keep the order of the loaders before;
* `Declines`            all loaders of a chain have an excuse, each asked once and in order;
* `run_tryAll_append`   loaders with excuses are passed over, their excuses are noted;
* `load_addAll`         how a chain is made up, and what it makes of a source.
-/

namespace XmlPaths

open Markup (Parser)

theorem Excuses.note_of_notMem {es : Excuses} {name : LoaderName} {e : Excuse}
    (h : name ∉ es.map Prod.fst) : es.note name e = es ++ [(name, e)] := by
  simp only [note, h, if_false]

namespace Chain

/-! ### additions -/

section

variable {m : Type → Type} {ε : Type}

theorem placeIn_eq (length : Nat) (position : Int) :
    (placeIn length position : Int)
      = max 0 (min (length : Int) (if position < 0 then length + position else position)) := by
  unfold placeIn
  split <;> omega

theorem take_append_cons_drop {α : Type} (a : α) {as : List α} {k : Nat} (hk : k ≤ as.length) :
    as.take k ++ a :: as.drop k = as.insertIdx k a := by
  induction as generalizing k with
  | nil => simp [Nat.le_zero.mp hk]
  | cons x as ih =>
    cases k with
    | zero => simp
    | succ k => simp [← ih (Nat.le_of_succ_le_succ hk)]

theorem add_eq_insertIdx (c : Chain m ε) (position : Option Int) (l : Loader m ε) :
    c.add position l = c.insertIdx ((position.map (placeIn c.length)).getD c.length) l := by
  cases position with
  | none => simp [add, List.insertIdx_length_self]
  | some p =>
    simp only [add, Option.map_some, Option.getD_some]
    exact take_append_cons_drop l (placeIn_le c.length p)

theorem add_perm (c : Chain m ε) (position : Option Int) (l : Loader m ε) :
    (c.add position l).Perm (l :: c) := by
  rw [add_eq_insertIdx]
  apply List.perm_insertIdx
  cases position with
  | none => exact Nat.le_refl _
  | some p => exact placeIn_le c.length p

theorem sublist_add (c : Chain m ε) (position : Option Int) (l : Loader m ε) :
    c.Sublist (c.add position l) := by
  rw [add_eq_insertIdx]
  exact List.sublist_insertIdx _ _ _

theorem addAll_append (c : Chain m ε) (rs rs' : List (Option Int × Loader m ε)) :
    c.addAll (rs ++ rs') = (c.addAll rs).addAll rs' :=
  List.foldl_append

theorem addAll_perm (c : Chain m ε) (rs : List (Option Int × Loader m ε)) :
    (c.addAll rs).Perm (c ++ rs.map Prod.snd) := by
  induction rs generalizing c with
  | nil => simp [addAll]
  | cons r rs ih =>
    have hadd : ((c.add r.1 r.2) ++ rs.map Prod.snd).Perm ((r.2 :: c) ++ rs.map Prod.snd) :=
      (add_perm c r.1 r.2).append_right _
    exact (ih (c.add r.1 r.2)).trans (hadd.trans List.perm_middle.symm)

theorem sublist_addAll (c : Chain m ε) (rs : List (Option Int × Loader m ε)) :
    c.Sublist (c.addAll rs) := by
  induction rs generalizing c with
  | nil => exact List.Sublist.refl _
  | cons r rs ih => exact (sublist_add c r.1 r.2).trans (ih _)

end

/-- the loaders for the kinds of sources that are known, added one after the other -/
theorem standard_eq_addAll {m : Type → Type} {ε : Type} [Monad m] :
    (standard : Chain m ε) = addAll [] (standard.map fun l => (none, l)) := rfl

/-! ### the loaders that are asked -/

variable {σ ε : Type} {s : Source ε} {P : Parser}

/-- All loaders of the chain have an excuse for the source.  They are asked once each and in
order, every one in the state that the one before leaves. -/
inductive Declines (s : Source ε) (P : Parser) :
    Chain (StateM σ) ε → σ → Excuses → σ → Prop where
  | nil (w : σ) : Declines s P [] w [] w
  | cons {l : Loader (StateM σ) ε} {c : Chain (StateM σ) ε} {w w₁ w₂ : σ} {e : Excuse}
      {es : Excuses} (hl : (l.reply s P).run w = (.excused e, w₁)) (hc : Declines s P c w₁ es w₂) :
      Declines s P (l :: c) w ((l.name, e) :: es) w₂

theorem Declines.names {c : Chain (StateM σ) ε} {w w' : σ} {es : Excuses}
    (h : Declines s P c w es w') : es.map Prod.fst = c.map Loader.name := by
  induction h with
  | nil => rfl
  | cons _ _ ih => simp [ih]

theorem run_tryAll_of_excused {l : Loader (StateM σ) ε} {c : Chain (StateM σ) ε} {w w₁ : σ}
    {e : Excuse} {es : Excuses} (h : (l.reply s P).run w = (.excused e, w₁)) :
    (tryAll s P es (l :: c)).run w = (tryAll s P (es.note l.name e) c).run w₁ := by
  simp only [tryAll, StateT.run_bind, h]
  rfl

theorem run_tryAll_of_loaded {l : Loader (StateM σ) ε} {c : Chain (StateM σ) ε} {w w₁ : σ}
    {n : Node} {es : Excuses} (h : (l.reply s P).run w = (.loaded n, w₁)) :
    (tryAll s P es (l :: c)).run w = (.ok n, w₁) := by
  simp only [tryAll, StateT.run_bind, h]
  rfl

theorem run_tryAll_of_unfit {l : Loader (StateM σ) ε} {c : Chain (StateM σ) ε} {w w₁ : σ}
    {es : Excuses} (h : (l.reply s P).run w = (.unfit, w₁)) :
    (tryAll s P es (l :: c)).run w = (.error .unfit, w₁) := by
  simp only [tryAll, StateT.run_bind, h]
  rfl

/-- Loaders that have an excuse are passed over. -/
theorem run_tryAll_append {before c : Chain (StateM σ) ε} {w w₁ : σ} {es noted : Excuses}
    (h : Declines s P before w es w₁)
    (hdistinct : (noted.map Prod.fst ++ before.map Loader.name).Nodup) :
    (tryAll s P noted (before ++ c)).run w = (tryAll s P (noted ++ es) c).run w₁ := by
  induction h generalizing noted with
  | nil => simp
  | @cons l before w w' w₁ e es hl _ ih =>
    have hnew : l.name ∉ noted.map Prod.fst := fun hmem =>
      (List.nodup_append'.mp hdistinct).2.2 hmem (by simp)
    rw [List.cons_append, run_tryAll_of_excused hl, Excuses.note_of_notMem hnew,
      ih (by simpa using hdistinct), List.append_assoc, List.singleton_append]

/-- Either all loaders have an excuse or there is a first one that has none. -/
theorem declines_or_first (s : Source ε) (P : Parser) (c : Chain (StateM σ) ε) (w : σ) :
    (∃ es w', Declines s P c w es w') ∨
    ∃ before l after es w₁ r w', c = before ++ l :: after ∧ Declines s P before w es w₁ ∧
      (l.reply s P).run w₁ = (r, w') ∧ ∀ e, r ≠ .excused e := by
  induction c generalizing w with
  | nil => exact .inl ⟨[], w, .nil w⟩
  | cons l c ih =>
    obtain ⟨r, w₁, hl⟩ : ∃ r w₁, (l.reply s P).run w = (r, w₁) := ⟨_, _, rfl⟩
    cases r with
    | excused e =>
      obtain ⟨es, w', hc⟩ | ⟨before, l', after, es, w₂, r, w', rfl, hbefore, hl', hr⟩ := ih w₁
      · exact .inl ⟨_, w', .cons hl hc⟩
      · exact .inr ⟨l :: before, l', after, _, w₂, r, w', rfl, .cons hl hbefore, hl', hr⟩
    | loaded n => exact .inr ⟨[], l, c, [], w, _, w₁, rfl, .nil w, hl, by simp⟩
    | unfit => exact .inr ⟨[], l, c, [], w, _, w₁, rfl, .nil w, hl, by simp⟩

theorem run_load {c : Chain (StateM σ) ε} {w w' : σ} {loaded : Except LoadFailure Node}
    (hs : s ≠ .nothing) (h : (tryAll s P [] c).run w = (loaded, w')) :
    (c.load s P).run w = (loaded.map some, w') := by
  cases s with
  | nothing => exact absurd rfl hs
  | _ =>
    simp only [load, StateT.run_bind, h]
    rfl

/-- What a chain of loaders with different names makes of a source. -/
theorem load_of_distinct {c : Chain (StateM σ) ε} (hdistinct : (c.map Loader.name).Nodup)
    (hs : s ≠ .nothing) (w : σ) :
    (∃ es w', Declines s P c w es w' ∧ es.map Prod.fst = c.map Loader.name ∧
      (c.load s P).run w = (.error (.excused es), w')) ∨
    ∃ before l after es w₁ r w', c = before ++ l :: after ∧ Declines s P before w es w₁ ∧
      (l.reply s P).run w₁ = (r, w') ∧
      ((∃ n, r = .loaded n ∧ (c.load s P).run w = (.ok (some n), w')) ∨
        (r = .unfit ∧ (c.load s P).run w = (.error .unfit, w'))) := by
  obtain ⟨es, w', hc⟩ | ⟨before, l, after, es, w₁, r, w', rfl, hbefore, hl, hr⟩ :=
    declines_or_first s P c w
  · have htry : (tryAll s P [] c).run w = (.error (.excused es), w') := by
      have happend : (tryAll s P [] (c ++ [])).run w = _ :=
        run_tryAll_append hc (by simpa using hdistinct)
      rw [List.append_nil] at happend
      exact happend
    exact .inl ⟨es, w', hc, hc.names, run_load hs htry⟩
  · have hnames : ((before.map Loader.name) ++ (l :: after).map Loader.name).Nodup := by
      simpa using hdistinct
    have htry : (tryAll s P [] (before ++ l :: after)).run w =
        (tryAll s P ([] ++ es) (l :: after)).run w₁ :=
      run_tryAll_append hbefore (List.nodup_append'.mp hnames).1
    refine .inr ⟨before, l, after, es, w₁, r, w', rfl, hbefore, hl, ?_⟩
    cases r with
    | excused e => exact absurd rfl (hr e)
    | loaded n =>
      exact .inl ⟨n, rfl, run_load hs (htry.trans (run_tryAll_of_loaded hl))⟩
    | unfit => exact .inr ⟨rfl, run_load hs (htry.trans (run_tryAll_of_unfit hl))⟩

/-- **What is registered, and what becomes of a source.**  Loaders with different names are added
to an empty chain.  The chain then holds each of them once.  Each was put at the end or, if it
came with a position, at this index as it is clamped to the chain of that time; a negative one
counts from its end.  The loaders that were there already have kept their order.

Nothing gives nothing, in whatever state.  For another source the loaders are asked in the order
of the chain and no one twice.  If all have an excuse, loading fails with these excuses, one for
each loader and in order.  Otherwise the first loader without an excuse is the last that is asked:
what it has loaded is the result, and if it's unfit loading fails because of that. -/
theorem load_addAll (rs : List (Option Int × Loader (StateM σ) ε))
    (hdistinct : (rs.map fun r => r.2.name).Nodup) :
    (addAll [] rs).Perm (rs.map Prod.snd) ∧ ((addAll [] rs).map Loader.name).Nodup ∧
    (∀ before position l after, rs = before ++ (position, l) :: after →
      ∃ k : Nat, addAll [] (before ++ [(position, l)]) = (addAll [] before).insertIdx k l ∧
        (position = none → k = (addAll [] before).length) ∧
        (∀ p, position = some p → (k : Int) = max 0 (min ((addAll [] before).length : Int)
          (if p < 0 then (addAll [] before).length + p else p))) ∧
        (addAll [] (before ++ [(position, l)])).Sublist (addAll [] rs)) ∧
    (∀ P w, (load (addAll [] rs) .nothing P).run w = (.ok none, w)) ∧
    ∀ s P w, s ≠ .nothing →
      (∃ es w', Declines s P (addAll [] rs) w es w' ∧
        es.map Prod.fst = (addAll [] rs).map Loader.name ∧
        ((addAll [] rs).load s P).run w = (.error (.excused es), w')) ∨
      ∃ before l after es w₁ r w', addAll [] rs = before ++ l :: after ∧
        Declines s P before w es w₁ ∧ (l.reply s P).run w₁ = (r, w') ∧
        ((∃ n, r = .loaded n ∧ ((addAll [] rs).load s P).run w = (.ok (some n), w')) ∨
          (r = .unfit ∧ ((addAll [] rs).load s P).run w = (.error .unfit, w'))) := by
  have hperm : (addAll [] rs).Perm (rs.map Prod.snd) := addAll_perm [] rs
  have hnames : ((addAll [] rs).map Loader.name).Nodup := by
    have hmap := hperm.map Loader.name
    rw [List.map_map] at hmap
    exact hmap.nodup_iff.mpr hdistinct
  refine ⟨hperm, hnames, ?_, fun P w => rfl, fun s P w hs => load_of_distinct hnames hs w⟩
  intro before position l after hrs
  refine ⟨(position.map (placeIn (addAll [] before).length)).getD (addAll [] before).length,
    ?_, ?_, ?_, ?_⟩
  · rw [addAll_append]
    exact add_eq_insertIdx (addAll [] before) position l
  · rintro rfl
    rfl
  · rintro p rfl
    exact placeIn_eq _ p
  · rw [hrs, List.append_cons before (position, l) after, addAll_append [] _ after]
    exact sublist_addAll _ after

/-- a loader that logs its number -/
def logging (number : Nat) (r : Reply) : Loader (StateM (List Nat)) Unit :=
  ⟨.added number "logging", fun _ _ => do
    modify (· ++ [number])
    return r⟩

/-- One declines, one breaks off, one is unfit and one loads. -/
def loggers : List (Option Int × Loader (StateM (List Nat)) Unit) :=
  [(none, logging 0 (Source.decline "declines")),
   (some (-7), logging 1 (.excused (.brokeOff (.other "KeyError" "key")))),
   (some 9, logging 2 .unfit),
   (some (-1), logging 3 (.loaded (.leaf 0 (.comment "loaded") none)))]

theorem load_addAll_loggers :
    (addAll [] loggers).Perm (loggers.map Prod.snd) ∧
    (addAll [] loggers).map Loader.name = [1, 0, 3, 2].map (LoaderName.added · "logging") ∧
    ∃ n, ((addAll [] loggers).load (.text []) (.basic .keep)).run [] = (.ok (some n), [1, 0, 3]) :=
  ⟨(load_addAll loggers (by decide)).1, rfl, _, rfl⟩

end Chain

end XmlPaths
