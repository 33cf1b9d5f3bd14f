import XmlPaths.Proofs.Build.Insertion

/-!
# Insertions are undivided

An insertion goes through stages: the node must not have a parent, the names are evaluated one
after the other, and the node is put where they tell.  Each stage may fail; only the last one
changes anything, and only if it succeeds.

* `Outcome.AllOrNothing`   a failure leaves the documents as they were;
* `requireDetached`, `seekPlace`, `settle`, `insertion`   the stages, and all of them;
* `insertion_eq`           they insert what `insertBehind` inserts;
* `Forest.Sound.insert_of_below`   a node is not put among the children of a node below it;
* `Forest.Sound.parent?_graft_rest`   the parents of all nodes when a tree has been put somewhere;
* `insertion_all_or_nothing`   what a failure leaves, and what a success changes.
-/

namespace XmlPaths

/-! ## failures without a trace -/

namespace Outcome

variable {α β : Type} {f : Forest}

/-- Where the operation fails, it leaves the documents as they were. -/
def AllOrNothing (f : Forest) (o : Outcome α) : Prop :=
  ∀ failure, o.result = .error failure → o.forest = f

theorem allOrNothing_fail (failure : Failure) : (fail f failure : Outcome α).AllOrNothing f :=
  fun _ _ => rfl

theorem allOrNothing_done (f' : Forest) (a : α) : (done f' a).AllOrNothing f :=
  fun _ h => absurd h (by simp [done])

/-- An operation without any effect on the documents, and one that fails without a trace. -/
theorem AllOrNothing.behind {o : Outcome α} {next : Forest → α → Outcome β} (ho : o.forest = f)
    (hnext : ∀ a, (next f a).AllOrNothing f) : (o.andThen next).AllOrNothing f := by
  intro failure h
  cases hresult : o.result with
  | error e => rw [andThen, hresult]; exact ho
  | ok a =>
    rw [result_andThen_of_ok next hresult, ho] at h
    rw [forest_andThen_of_ok next hresult, ho]
    exact hnext a failure h

/-- the outcome of a computation that only reads the documents -/
def ofReading (f : Forest) : Except Failure α → Outcome α
  | .ok a => done f a
  | .error e => fail f e

/-- the outcome of a computation that makes other documents of the given ones -/
def ofChange (f : Forest) : Except Failure Forest → Outcome Unit
  | .ok f' => done f' ()
  | .error e => fail f e

@[simp] theorem forest_ofReading (f : Forest) (r : Except Failure α) :
    (ofReading f r).forest = f := by
  cases r <;> rfl

theorem allOrNothing_ofChange (r : Except Failure Forest) : (ofChange f r).AllOrNothing f := by
  cases r with
  | ok f' => exact allOrNothing_done f' ()
  | error e => exact allOrNothing_fail e

end Outcome

/-! ## the stages of an insertion -/

/-- refuses a node that has a parent -/
def requireDetached (f : Forest) (x : NodeId) : Outcome Unit :=
  if (f.parent? x).isSome then .fail f .stillAttached else .done f ()

/-- evaluates names until one of them selects something -/
def seekPlace (f : Forest) (parent : NodeId) (ns : Namespaces) :
    List String → Outcome Forest.Place
  | [] => .done f (.first parent)
  | name :: rest =>
    (Outcome.ofReading f (selectFrom f parent (lastNamed name) ns)).andThen fun f found =>
      match found with
      | [] => seekPlace f parent ns rest
      | .node x :: _ => .done f (.after x)
      | _ :: _ => .fail f (.refused .notAnElement)

/-- puts a node at a place -/
def settle (f : Forest) (x : NodeId) (p : Forest.Place) : Outcome Unit :=
  .ofChange f ((f.insert x p).mapError .refused)

def insertion (f : Forest) (parent child : NodeId) (names : List String) (ns : Namespaces) :
    Outcome Unit :=
  (requireDetached f child).andThen fun f _ =>
    (seekPlace f parent ns names.reverse).andThen fun f p => settle f child p

section
variable (f : Forest) (parent child : NodeId) (ns : Namespaces)

theorem seekPlace_eq (names : List String) :
    seekPlace f parent ns names = .ofReading f (placeByPriority f parent ns names) := by
  induction names with
  | nil => rfl
  | cons name rest ih =>
    rw [seekPlace, placeByPriority]
    cases selectFrom f parent (lastNamed name) ns with
    | error e => rfl
    | ok found =>
      rw [Outcome.ofReading, Outcome.andThen_done]
      cases found with
      | nil => exact ih
      | cons s found => cases s <;> rfl

/-- The stages insert what is inserted. -/
theorem insertion_eq (names : List String) :
    insertion f parent child names ns = .ofChange f (insertBehind f parent child names ns) := by
  rw [insertion, requireDetached, insertBehind]
  cases f.parent? child with
  | some q => rfl
  | none =>
    rw [Option.isSome_none, if_neg (by simp), Outcome.andThen_done, seekPlace_eq, ← placeBehind]
    cases placeBehind f parent names ns with
    | error e => rfl
    | ok p => rfl

/-- No stage but the last one has an effect, hence a failure of any of them has none. -/
theorem allOrNothing_insertion (names : List String) :
    (insertion f parent child names ns).AllOrNothing f := by
  have hguard : (requireDetached f child).forest = f := by
    rw [requireDetached]
    split <;> rfl
  have hplace : (seekPlace f parent ns names.reverse).forest = f := by
    rw [seekPlace_eq, Outcome.forest_ofReading]
  refine Outcome.AllOrNothing.behind hguard fun _ => ?_
  refine Outcome.AllOrNothing.behind hplace fun p => ?_
  exact Outcome.allOrNothing_ofChange _

end

/-! ## where names put a node -/

/-- Names of elements that are evaluated without a failure tell a place among the children. -/
theorem exists_in_of_placeByPriority {f : Forest} (hf : f.Sound) {x : NodeId} {n : Node}
    (hx : f.node? x = some n) {ns : Namespaces} {names : List String}
    (hnames : ∀ name ∈ names, NamesElement name) {p : Forest.Place}
    (h : placeByPriority f x ns names = .ok p) : ∃ k, p.In n k := by
  induction names with
  | nil =>
    obtain rfl := Except.ok.inj h
    rw [← (Forest.mem_of_node? hx).2]
    exact ⟨0, .first⟩
  | cons name rest ih =>
    cases hselect : selectFrom f x (lastNamed name) ns with
    | error e =>
      rw [placeByPriority, hselect] at h
      exact absurd h (by simp)
    | ok found =>
      obtain ⟨hns, m, hm⟩ := exists_denotes_of_selectFrom (hnames name List.mem_cons_self) hselect
      rw [placeByPriority, selectFrom_lastNamed hf hx hns hm] at h
      cases hlast : (n.children.filter (·.isNamed m)).getLast? with
      | none =>
        rw [hlast] at h
        exact ih (fun name' hname' => hnames name' (List.mem_cons_of_mem _ hname')) h
      | some c =>
        rw [hlast] at h
        obtain rfl := Except.ok.inj h
        obtain ⟨before, after, hchildren, -, -⟩ := exists_split_of_getLast?_filter hlast
        exact ⟨_, .after hchildren⟩

namespace Forest

variable {f : Forest} {before after : List Tree} {t : Tree}
  (htrees : f.trees = before ++ t :: after) (hf : f.Sound)
include htrees hf

/-- What is at the top of a tree is not put among the children of a node of that tree. -/
theorem Sound.insert_of_below {x : NodeId} {n : Node} (hx : f.node? x = some n)
    (hn : n.isElement = true) (hbelow : x ∈ t.top.ids) {k : Nat} {p : Place} (hp : p.In n k) :
    f.insert t.top.id p = .error .belowItself := by
  have ht : t ∈ f.trees := htrees ▸ List.mem_append_right _ List.mem_cons_self
  obtain ⟨hmem, rfl⟩ := mem_of_node? hx
  have hinside : n ∈ t.top.nodes := by
    obtain ⟨m, hm, hid⟩ := List.mem_map.1 hbelow
    rwa [← hf.eq_of_id (List.mem_flatMap.2 ⟨t, ht, hm⟩) hmem hid]
  have hchild {c : Node} (hc : c ∈ n.children) : c.id ∈ t.top.ids ∧ c.id ≠ t.top.id := by
    refine ⟨Node.ids_subset_of_mem hinside (List.mem_map_of_mem
      (Node.mem_nodes_of_mem_children hc)), fun hid => ?_⟩
    have hparent := hf.parent?_of_mem_children hmem hc
    rw [hid, hf.parent?_top ht] at hparent
    exact absurd hparent (by simp)
  have hnode : p.node ∈ t.top.ids ∧ p.isAt t.top.id = false := by
    cases hp with
    | first => exact ⟨hbelow, rfl⟩
    | @after _ _ c hchildren =>
      obtain ⟨hc, hne⟩ := hchild (c := c) (hchildren ▸ List.mem_append_right _ List.mem_cons_self)
      exact ⟨hc, beq_eq_false_iff_ne.2 hne⟩
  unfold Forest.insert
  rw [(hp.among hf hx hn).free]
  dsimp only
  rw [hnode.2, hf.any_lineage_of_mem ht hnode.1, if_neg (by simp), if_pos rfl]

omit hf in
theorem ids_perm_of_trees :
    f.ids.Perm (t.top.ids ++ (Forest.mk (before ++ after) f.next).ids) := by
  have htops : f.tops.Perm (t.top :: (Forest.mk (before ++ after) f.next).tops) := by
    rw [tops, tops, htrees]
    exact List.perm_middle.map Tree.top
  have hids := htops.flatMap_right Node.ids
  rwa [← ids_eq_tops, List.flatMap_cons, ← ids_eq_tops] at hids

/-- **The parents of all nodes** when a tree has been put among the children of a node of another
one: its topmost node is a child of that node now, and no other node has got a different parent. -/
theorem Sound.parent?_graft_rest {q : NodeId} {m : Node}
    (hm : (Forest.mk (before ++ after) f.next).node? q = some m) (hel : m.isElement = true)
    {k : Nat} {f' : Forest}
    (hf' : f' = (Forest.mk (before ++ after) f.next).grow q (Node.insertAt k t.top) f.next) :
    f'.ids.Perm f.ids ∧ (f'.parent? t.top.id).map Node.id = some q ∧
      ∀ y, y ≠ t.top.id → (f'.parent? y).map Node.id = (f.parent? y).map Node.id := by
  have hrest := Sound.rest htrees hf
  obtain ⟨hgrow, hkeeps⟩ := Sound.graft_rest htrees hf hm hel k
  have hfound := node?_grow_of_keeps hgrow hrest hm (fun d => Node.id_insertAt k t.top d)
    fun _ _ => Node.nodes_insertAt_subset
  have hids : f'.ids.Perm f.ids := by
    rw [hf']
    exact (hrest.ids_grow hm (Node.ids_insertAt hel)).trans (ids_perm_of_trees htrees).symm
  rw [← hf'] at hgrow hkeeps hfound
  refine ⟨hids, ?_, fun y hy => ?_⟩
  · obtain ⟨hmem, hid⟩ := mem_of_node? hfound
    have hchild : t.top ∈ (m.update q (Node.insertAt k t.top)).children := by
      rw [Node.update_self (mem_of_node? hm).2, Node.children_insertAt hel]
      exact List.mem_append_right _ List.mem_cons_self
    rw [hgrow.parent?_of_mem_children hmem hchild, Option.map_some, hid]
  · cases hparent : f.parent? y with
    | some d =>
      -- the former parent is kept, and its child with it
      have hd : d ∈ f.nodes := List.mem_of_find?_eq_some hparent
      have hchild : d.hasChild y = true := List.find?_some hparent
      obtain ⟨c, hc, hcy⟩ := List.any_eq_true.1 hchild
      obtain ⟨d', hd', hkept⟩ := hkeeps d.id d (hf.node?_of_mem hd)
      obtain ⟨c', hc', hcc⟩ := List.mem_map.1 (hkept.children.subset (List.mem_map_of_mem hc))
      obtain ⟨hmem, hid⟩ := mem_of_node? hd'
      have hparent' := hgrow.parent?_of_mem_children hmem hc'
      rw [hcc, eq_of_beq hcy] at hparent'
      rw [hparent', Option.map_some, Option.map_some, hid]
    | none =>
      -- a node without parent is at the top of a tree, and still is
      rw [Option.map_none, Option.map_eq_none_iff]
      by_cases hyf : y ∈ f.ids
      · obtain ⟨n, hn⟩ := exists_node?_of_mem_ids hyf
        obtain ⟨s, hs, rfl⟩ := exists_top_of_parent? hn hparent
        obtain rfl : s.top.id = y := (mem_of_node? hn).2
        have hstays : s ∈ before ++ after := by
          rw [htrees, List.mem_append, List.mem_cons] at hs
          rw [List.mem_append]
          refine hs.imp_right fun hs => hs.resolve_left ?_
          rintro rfl
          exact hy rfl
        have hs' : (⟨s.document, s.attached, s.top.update q (Node.insertAt k t.top)⟩ : Tree) ∈
            f'.trees := by
          rw [hf']
          exact List.mem_map_of_mem hstays
        have htop := hgrow.parent?_top hs'
        rwa [Node.id_update fun d hd => (Node.id_insertAt k t.top d).trans hd] at htop
      · rw [parent?, List.find?_eq_none]
        intro d hd hchild
        obtain ⟨c, hc, hcy⟩ := List.any_eq_true.1 hchild
        refine hyf (hids.subset ?_)
        rw [← eq_of_beq hcy]
        exact List.mem_map_of_mem (mem_nodes_of_mem_children hd hc)

end Forest

/-! ## the whole insertion -/

/-- A node that names of elements have put somewhere. -/
theorem parents_of_insertBehind {f f' : Forest} (hf : f.Sound) {parent child : NodeId}
    (hparent : f.isElement parent = true) (hchild : child ∈ f.ids) {names : List String}
    (hnames : ∀ name ∈ names, NamesElement name) {ns : Namespaces}
    (h : insertBehind f parent child names ns = .ok f') :
    f'.ids.count child = 1 ∧ (f'.parent? child).map Node.id = some parent ∧
      ∀ y, y ≠ child → (f'.parent? y).map Node.id = (f.parent? y).map Node.id := by
  obtain ⟨n, hn, hel⟩ := (Option.any_eq_true _ _).1 hparent
  obtain ⟨c, hc⟩ := Forest.exists_node?_of_mem_ids hchild
  rw [insertBehind] at h
  split at h
  · exact absurd h (by simp)
  · next htop =>
    split at h
    · exact absurd h (by simp)
    · next p hplace =>
      obtain ⟨k, hin⟩ := exists_in_of_placeByPriority hf hn
        (fun name hname => hnames name (List.mem_reverse.1 hname)) hplace
      obtain ⟨t, ht, rfl⟩ := Forest.exists_top_of_parent? hc htop
      obtain ⟨before, after, htrees⟩ := List.append_of_mem ht
      obtain rfl : t.top.id = child := (Forest.mem_of_node? hc).2
      by_cases hbelow : parent ∈ t.top.ids
      · rw [Forest.Sound.insert_of_below htrees hf hn hel hbelow hin] at h
        exact absurd h (by simp [Except.mapError])
      · rw [Forest.Sound.insert_of_in htrees hf hn hbelow hel hin] at h
        obtain rfl := Except.ok.inj h
        have hrest := Forest.Sound.node?_rest htrees hf hn hbelow
        obtain ⟨hids, hput, hothers⟩ :=
          Forest.Sound.parent?_graft_rest htrees hf hrest hel (k := k) rfl
        refine ⟨?_, hput, hothers⟩
        exact List.count_eq_one_of_mem (hids.nodup_iff.2 hf.nodup) (hids.mem_iff.2 hchild)

/-- **An insertion is all or nothing.**  A node that has a parent is refused as one that is still
attached, whatever the names are.  Whatever an insertion fails with, be it a name that can't be
evaluated or selects something else than a node, or that the node would be put below itself, it
leaves all documents as they were.  If it succeeds with names of elements, the node is there once,
as a child of the parent that was given, and no other node has got a different parent. -/
theorem insertion_all_or_nothing {f : Forest} (hf : f.Sound) {parent child : NodeId}
    (hparent : f.isElement parent = true) (hchild : child ∈ f.ids) (names : List String)
    (ns : Namespaces) :
    (insertion f parent child names ns = .ofChange f (insertBehind f parent child names ns)) ∧
    (∀ q, f.parent? child = some q →
      (insertion f parent child names ns).result = .error .stillAttached) ∧
    (∀ failure, (insertion f parent child names ns).result = .error failure →
      (insertion f parent child names ns).forest = f) ∧
    ((insertion f parent child names ns).result = .ok () →
      (∀ name ∈ names, NamesElement name) → ∀ f', (insertion f parent child names ns).forest = f' →
      f'.ids.count child = 1 ∧ (f'.parent? child).map Node.id = some parent ∧
        ∀ y, y ≠ child → (f'.parent? y).map Node.id = (f.parent? y).map Node.id) := by
  refine ⟨insertion_eq f parent child ns names, fun q hq => ?_,
    allOrNothing_insertion f parent child ns names, fun hok hnames f' hf' => ?_⟩
  · rw [insertion, requireDetached, hq]
    rfl
  · rw [insertion_eq] at hok hf'
    cases h : insertBehind f parent child names ns with
    | error failure =>
      rw [h] at hok
      exact absurd hok (by simp [Outcome.ofChange, Outcome.fail])
    | ok g =>
      rw [h] at hf'
      obtain rfl : g = f' := hf'
      exact parents_of_insertBehind hf hparent hchild hnames h

/-- An element is put behind another one.  A child of the parent is refused even with a text that is
no expression for a name, and an element isn't put into itself, whatever its children are. -/
theorem insertion_all_or_nothing_mixedNames :
    ((insertion mixedNames 0 6 ["or"] []).forest.parent? 6).map Node.id = some 0 ∧
    (insertion mixedNames 0 1 ["["] []).result = .error .stillAttached ∧
    (insertion mixedNames 6 6 ["a"] []).forest = mixedNames := by
  have hor : ∀ name ∈ ["or"], NamesElement name :=
    List.forall_mem_singleton.2 (.bare (by decide))
  obtain ⟨⟨⟩, hok, -⟩ : ∃ u, (insertion mixedNames 0 6 ["or"] []).result = .ok u ∧ u = () := by
    refine exists_ok_of_toOption_map (f := fun u => u) ?_
    decide +kernel
  have hbelow : ∃ failure, (insertion mixedNames 6 6 ["a"] []).result = .error failure := by
    have hfails : (insertion mixedNames 6 6 ["a"] []).result.isOk = false := by decide +kernel
    cases hresult : (insertion mixedNames 6 6 ["a"] []).result with
    | ok u =>
      rw [hresult] at hfails
      exact absurd hfails (by simp [Except.isOk, Except.toBool])
    | error failure => exact ⟨failure, rfl⟩
  obtain ⟨failure, hfailure⟩ := hbelow
  obtain ⟨-, -, -, hput⟩ := @insertion_all_or_nothing mixedNames sound_mixedNames 0 6
    (by decide) (by decide) ["or"] []
  obtain ⟨-, hattached, -⟩ := @insertion_all_or_nothing mixedNames sound_mixedNames 0 1
    (by decide) (by decide) ["["] []
  obtain ⟨-, -, hnothing, -⟩ := @insertion_all_or_nothing mixedNames sound_mixedNames 6 6
    (by decide) (by decide) ["a"] []
  exact ⟨(hput hok hor _ rfl).2.1, hattached _ rfl, hnothing failure hfailure⟩

end XmlPaths
