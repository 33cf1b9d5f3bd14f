import XmlPaths.Proofs.Build.Growth
import XmlPaths.Proofs.Selection.LastNamed

/-!
# Places behind named siblings

The last one of the names that any child bears tells the place of a new child: it is put behind the
last child that bears this name.

* `Node.Bears`           elements of the name that a text stands for;
* `Node.Behind`          how many children are in front of the place that names tell;
* `Node.Behind.unique`   there is one such place only;
* `Forest.Place.In`      the places among the children of a node;
* `Forest.Place.Among`   what is put there becomes a child of the node;
* `exists_in_placeBehind`   names of elements tell a place among the children.
-/

namespace XmlPaths

/-- an element of the name that a text stands for -/
def Node.Bears (ns : Namespaces) (name : String) (n : Node) : Prop :=
  ∃ m, ns.Denotes name m ∧ n.isNamed m = true

/-- The number of children in front of the place that names tell: it is behind the last child that
bears the last one of the names that any child bears, or in front of all children if no child bears
one of them. -/
inductive Node.Behind (ns : Namespaces) (n : Node) : List String → Nat → Prop where
  | last {earlier later : List String} {name : String} {before after : List Node} {c : Node}
      (hchildren : n.children = before ++ c :: after) (hc : c.Bears ns name)
      (hafter : ∀ d ∈ after, ¬ d.Bears ns name)
      (hlater : ∀ name' ∈ later, ∀ d ∈ n.children, ¬ d.Bears ns name') :
      Behind ns n (earlier ++ name :: later) (before.length + 1)
  | first {names : List String}
      (hnone : ∀ name ∈ names, ∀ c ∈ n.children, ¬ c.Bears ns name) : Behind ns n names 0

theorem Namespaces.Denotes.bears_iff {ns : Namespaces} {name : String} {m : Name}
    (h : ns.Denotes name m) {c : Node} : c.Bears ns name ↔ c.isNamed m = true := by
  constructor
  · rintro ⟨m', h', hc⟩
    rwa [h.unique h']
  · exact fun hc => ⟨m, h, hc⟩

/-- A further name that no child bears tells no other place. -/
theorem Node.Behind.concat {ns : Namespaces} {n : Node} {names : List String} {k : Nat}
    (h : n.Behind ns names k) {name : String} (hname : ∀ c ∈ n.children, ¬ c.Bears ns name) :
    n.Behind ns (names ++ [name]) k := by
  cases h with
  | last hchildren hc hafter hlater =>
    rw [List.append_assoc, List.cons_append]
    refine .last hchildren hc hafter fun name' hname' => ?_
    rcases List.mem_append.1 hname' with hname' | hname'
    · exact hlater name' hname'
    · rwa [List.mem_singleton.1 hname']
  | first hnone =>
    refine .first fun name' hname' => ?_
    rcases List.mem_append.1 hname' with hname' | hname'
    · exact hnone name' hname'
    · rwa [List.mem_singleton.1 hname']

/-- **Names tell one place.** -/
theorem Node.Behind.unique {ns : Namespaces} {n : Node} {names : List String} {k k' : Nat}
    (h : n.Behind ns names k) (h' : n.Behind ns names k') : k = k' := by
  generalize hnames : names = names' at h'
  cases h with
  | @last earlier later name before after c hchildren hc hafter hlater =>
    have hmem : c ∈ n.children := hchildren ▸ List.mem_append_right _ List.mem_cons_self
    cases h' with
    | @last earlier' later' name' before' after' c' hchildren' hc' hafter' hlater' =>
      have hmem' : c' ∈ n.children := hchildren' ▸ List.mem_append_right _ List.mem_cons_self
      -- the last one of the names that any child bears is the same
      obtain ⟨-, rfl⟩ : earlier = earlier' ∧ name = name' :=
        append_cons_inj_of_last (p := fun m => ∃ d ∈ n.children, d.Bears ns m) hnames
          ⟨c, hmem, hc⟩ ⟨c', hmem', hc'⟩ (fun m hm ⟨d, hd, hb⟩ => hlater m hm d hd hb)
          fun m hm ⟨d, hd, hb⟩ => hlater' m hm d hd hb
      obtain ⟨rfl, -⟩ : before = before' ∧ c = c' :=
        append_cons_inj_of_last (hchildren.symm.trans hchildren') hc hc' hafter hafter'
      rfl
    | first hnone => exact absurd hc (hnone name (hnames ▸ by simp) c hmem)
  | first hnone =>
    cases h' with
    | @last earlier' later' name' before' after' c' hchildren' hc' =>
      have hmem' : c' ∈ n.children := hchildren' ▸ List.mem_append_right _ List.mem_cons_self
      exact absurd hc' (hnone name' (hnames ▸ by simp) c' hmem')
    | first => rfl

/-- The last element of a list that meets a test, with what is around it. -/
theorem exists_split_of_getLast?_filter {α : Type} {p : α → Bool} {l : List α} {a : α}
    (h : (l.filter p).getLast? = some a) :
    ∃ before after, l = before ++ a :: after ∧ p a = true ∧ ∀ b ∈ after, ¬ p b = true := by
  obtain ⟨kept, hkept⟩ := List.getLast?_eq_some_iff.1 h
  obtain ⟨u, v, rfl, -, hv⟩ := List.filter_eq_append_iff.1 hkept
  obtain ⟨w, after, rfl, -, ha, hafter⟩ := List.filter_eq_cons_iff.1 hv
  refine ⟨u ++ w, after, ?_, ha, List.filter_eq_nil_iff.1 hafter⟩
  rw [List.append_assoc]

/-! ## places among children -/

/-- In front of all children of the node or behind one of them, with `k` children in front of the
place. -/
inductive Forest.Place.In (n : Node) : Nat → Forest.Place → Prop where
  | first : In n 0 (.first n.id)
  | after {before after : List Node} {c : Node} (hchildren : n.children = before ++ c :: after) :
      In n (before.length + 1) (.after c.id)

/-- What is put at the place becomes a child of the node, with `k` children in front of it. -/
structure Forest.Place.Among (f : Forest) (x : NodeId) (k : Nat) (p : Forest.Place) : Prop where
  free : p.refusal? f = none
  put : ∀ z, f.put z p = f.grow x (Node.insertAt k z) (f.next + 1)

section
variable {f : Forest} (hf : f.Sound) {x : NodeId} {n : Node} (hx : f.node? x = some n)
  (hn : n.isElement = true)
include hf hx

namespace Forest.Place

omit hf in
include hn in
theorem among_first : (first x).Among f x 0 where
  free := by rw [refusal?, isLeaf_of_isElement hx hn, if_neg (by simp)]
  put z := put_first f z x

include hn in
theorem among_last : (last x).Among f x n.children.length where
  free := by rw [refusal?, isLeaf_of_isElement hx hn, if_neg (by simp)]
  put z := by
    refine grow_congr hf hx (Node.withChildren_congr ?_)
    rw [List.take_length, List.drop_length]

/-- A child is at the top of no tree, hence there is a place behind it. -/
theorem among_after {c : Node} {before after : List Node}
    (hchildren : n.children = before ++ c :: after) :
    (Place.after c.id).Among f x (before.length + 1) := by
  obtain ⟨hmem, rfl⟩ := mem_of_node? hx
  refine ⟨?_, fun z => put_behind hf z hmem hchildren⟩
  have hparent := hf.parent?_of_mem_children hmem (c := c) (by rw [hchildren]; simp)
  have hroot : f.isRoot c.id = false := by
    rw [isRoot, List.any_eq_false]
    intro t ht htop
    rw [Bool.and_eq_true, beq_iff_eq] at htop
    rw [← htop.2, hf.parent?_top ht] at hparent
    exact absurd hparent (by simp)
  rw [refusal?, hroot, if_neg (by simp)]

include hn in
theorem In.among {k : Nat} {p : Forest.Place} (h : p.In n k) : p.Among f x k := by
  cases h with
  | first =>
    rw [(mem_of_node? hx).2]
    exact among_first hx hn
  | after hchildren => exact among_after hf hx hchildren

end Forest.Place

theorem exists_in_placeByPriority {ns : Namespaces} {names : List String}
    (hns : names = [] ∨ ns.refusal? = none) (hnames : ∀ name ∈ names, ∃ m, ns.Denotes name m) :
    ∃ p k, placeByPriority f x ns names = .ok p ∧ p.In n k ∧ n.Behind ns names.reverse k := by
  induction names with
  | nil =>
    refine ⟨.first x, 0, rfl, ?_, .first fun name hname => absurd hname (by simp)⟩
    rw [← (Forest.mem_of_node? hx).2]
    exact .first
  | cons name rest ih =>
    have hns' : ns.refusal? = none := hns.resolve_left (by simp)
    obtain ⟨m, hm⟩ := hnames name List.mem_cons_self
    have hselect := selectFrom_lastNamed hf hx hns' hm
    rw [placeByPriority, hselect, List.reverse_cons]
    cases hlast : (n.children.filter (·.isNamed m)).getLast? with
    | none =>
      obtain ⟨p, k, hp, hin, hbehind⟩ := ih (.inr hns') fun name' hname' =>
        hnames name' (List.mem_cons_of_mem _ hname')
      refine ⟨p, k, hp, hin, hbehind.concat fun c hc => ?_⟩
      rw [hm.bears_iff]
      exact List.filter_eq_nil_iff.1 (List.getLast?_eq_none_iff.1 hlast) c hc
    | some c =>
      obtain ⟨before, after, hchildren, hc, hafter⟩ := exists_split_of_getLast?_filter hlast
      refine ⟨_, _, rfl, .after hchildren, ?_⟩
      refine .last hchildren (hm.bears_iff.2 hc) (fun d hd => ?_) fun name' hname' =>
        absurd hname' (by simp)
      rw [hm.bears_iff]
      exact hafter d hd

/-- **Names of elements tell a place among the children.** -/
theorem exists_in_placeBehind {ns : Namespaces} {names : List String}
    (hns : names = [] ∨ ns.refusal? = none) (hnames : ∀ name ∈ names, ∃ m, ns.Denotes name m) :
    ∃ p k, placeBehind f x names ns = .ok p ∧ p.In n k ∧ n.Behind ns names k := by
  have hreverse : ∀ name ∈ names.reverse, ∃ m, ns.Denotes name m := fun name hname =>
    hnames name (List.mem_reverse.1 hname)
  have hplace := exists_in_placeByPriority hf hx (hns.imp_left fun h => by rw [h]; rfl) hreverse
  rwa [List.reverse_reverse] at hplace

include hn in
theorem exists_among_placeBehind {ns : Namespaces} (hns : ns.refusal? = none)
    {names : List String} (hnames : ∀ name ∈ names, ∃ m, ns.Denotes name m) :
    ∃ p k, placeBehind f x names ns = .ok p ∧ p.Among f x k ∧ n.Behind ns names k := by
  obtain ⟨p, k, hp, hin, hbehind⟩ := exists_in_placeBehind hf hx (.inr hns) hnames
  exact ⟨p, k, hp, hin.among hf hx hn, hbehind⟩

end

end XmlPaths
