import XmlPaths.Proofs.Build.Making
import XmlPaths.Proofs.Path.Beginnings
import XmlPaths.Proofs.Selection.Reach

/-!
# Following the steps of a path

What one turn of `follow` does, and what it looks at: the beginnings of a plain expression select
what the steps up to them lead to, in every forest.

* `Forest.extend_of_hasAttribute`, `Forest.node?_new`   extended forests;
* `plain_beginning`, `selectFrom_beginning`   the beginnings, and what they select;
* `follow_element`, `follow_attribute`   an element or attribute that is not used is made;
* `buildPath_of_follow`   the run over all beginnings, and the look at the result;
* `build_of_parse`, `buildElement_of_parse`   building what an accepted expression describes.
-/

namespace XmlPaths

/-! ## extended forests -/

namespace Forest

variable {f : Forest} (hf : f.Sound) (ns : Namespaces) {x : NodeId} {n : Node}
  (hx : f.node? x = some n)
include hf hx

theorem extend_nil : f.extend ns x [] = f := grow_eq_self hf hx rfl

theorem extend_of_hasAttribute {a : String} (ha : n.hasAttribute a = true) :
    f.extend ns x [.attribute a] = f := by
  refine grow_eq_self hf hx ?_
  rw [Node.extend, if_pos ha]

theorem node?_extend_self (hn : n.isElement = true) (steps : List Step) :
    (f.extend ns x steps).node? x = some (n.extend ns f.next steps) := by
  obtain ⟨-, hid⟩ := mem_of_node? hx
  have hmem : x ∈ n.ids := by
    rw [← hid]
    exact n.id_mem_ids
  rw [node?_extend hf ns hx hn hx hmem, Node.update_self hid]

/-- the element that was made for one step -/
theorem node?_new (hn : n.isElement = true) (s : ChildStep) :
    (f.extend ns x [.element s]).node? f.next = some (s.newElement ns f.next) := by
  have hextended := (mem_of_node? (node?_extend_self hf ns hx hn [.element s])).1
  have hchild : s.newElement ns f.next ∈ (n.extend ns f.next [.element s]).children := by
    cases n with
    | leaf j l t => exact absurd hn (by simp [Node.isElement, Node.element?])
    | element j e cs t => exact List.mem_append_right _ List.mem_cons_self
  exact (hf.extend ns hx hn _).node?_of_mem (mem_nodes_of_mem_children hextended hchild)

end Forest

/-! ## beginnings -/

theorem Path.map_snd_beginnings (p : Path) : p.beginnings.map Prod.snd = p.steps :=
  map_snd_beginningsFrom "" p.segments

theorem expression_of_parse {e : String} {p : Path} (hp : Path.parse e = .ok p) :
    p.expression = e := (readSegments_of_parse hp).2.2

/-- A beginning of a plain expression is one, with the steps up to the one that it ends with. -/
theorem plain_beginning {e : String} (he : Plain e) {p : Path} (hp : Path.parse e = .ok p)
    {found missing : List (String × Step)} {c : String} {s : Step}
    (hb : p.beginnings = found ++ (c, s) :: missing) :
    Plain c ∧ ∃ q, Path.parse c = .ok q ∧ q.steps = found.map Prod.snd ++ [s] := by
  obtain ⟨⟨z, hz⟩, hq⟩ := parse_beginning common_plain.toClear (spells_of_parse he hp) hp hb
  refine ⟨?_, hq⟩
  rw [Plain, hz] at he
  exact he.of_append

section
variable {e : String} (he : Plain e) {p : Path} (hp : Path.parse e = .ok p)
  {ns : Namespaces} (hns : ns.refusal? = none) (hbind : ns.Bind p.steps)
include he hp hns hbind

theorem selectFrom_beginning {found missing : List (String × Step)} {c : String} {s : Step}
    (hb : p.beginnings = found ++ (c, s) :: missing) {f : Forest} (hf : f.Sound) {root : NodeId}
    {n : Node} (hn : f.node? root = some n) :
    selectFrom f root c ns = .ok (n.walk ns (found.map Prod.snd ++ [s])) := by
  obtain ⟨hplain, q, hq, hsteps⟩ := plain_beginning he hp hb
  have hbind' : ns.Bind q.steps := by
    intro s' hs'
    apply hbind s'
    rw [← p.map_snd_beginnings, hb, List.map_append, List.map_cons]
    rw [hsteps, List.mem_append, List.mem_singleton] at hs'
    rcases hs' with hs' | rfl
    · exact List.mem_append_left _ hs'
    · exact List.mem_append_right _ List.mem_cons_self
  rw [← hsteps]
  exact selectFrom_of_parse hf hn hplain hq hns hbind'

end

/-! ## one turn -/

section
variable {site : Site} {f : Forest} (hf : f.Sound) {x : NodeId} {n : Node}
  (hx : f.node? x = some n) (hn : n.isElement = true) {c : String}
  (hexisting : site.existing? f c = .ok none) (rest : List (String × Step))
include hf hx hn hexisting

theorem follow_element {s : ChildStep} (hs : s.Feasible site.namespaces) :
    follow site f (.node x) none ((c, .element s) :: rest) =
      follow site (f.extend site.namespaces x [.element s]) (.node f.next) none rest := by
  have hs' : (Step.element s).Feasible site.namespaces := hs
  have hstep := addStep_of_feasible hf hx hn hs' fun a h => absurd h (by simp)
  rw [follow, hexisting]
  dsimp only
  rw [hstep, Outcome.andThen_done]
  rfl

theorem follow_attribute {a : String} (ha : isNcName a = true) (hnew : n.hasAttribute a = false) :
    follow site f (.node x) none ((c, .attribute a) :: rest) =
      follow site (f.extend site.namespaces x [.attribute a]) (.attribute ⟨x, a⟩) none rest := by
  have ha' : (Step.attribute a).Feasible site.namespaces := ha
  have hstep := addStep_of_feasible hf hx hn ha' fun b h => by
    rw [← Step.attribute.inj h]
    exact hnew
  rw [follow, hexisting]
  dsimp only
  rw [hstep, Outcome.andThen_done]
  rfl

end

/-! ## building -/

/-- What was made for the beginnings is confirmed if the expression selects something then. -/
theorem buildPath_of_follow {site : Site} {e : String} {p : Path} (hp : Path.parse e = .ok p)
    {f f' : Forest} {made r : Selected} {rs : List Selected}
    (hfollow : follow site f (.node site.root) none p.beginnings = .done f' made)
    (hselect : selectFrom f' site.root e site.namespaces = .ok (r :: rs)) :
    buildPath site f p none = ⟨f', [], .ok made⟩ := by
  rw [buildPath, hfollow, Outcome.andThen_done, confirm, expression_of_parse hp,
    hselect]
  rfl

theorem build_of_parse {e : String} {p : Path} (hp : Path.parse e = .ok p) (site : Site)
    (f : Forest) : build site f e = buildPath site f p none := by
  rw [build, hp]

/-- what was built, if it is an element -/
def requireElement (f : Forest) : Selected → Outcome NodeId
  | .node x => .done f x
  | _ => .fail f (.refused .notAnElement)

theorem buildElement_of_parse {e : String} {p : Path} (hp : Path.parse e = .ok p)
    (hends : p.endsInAttribute = false) (site : Site) (f : Forest)
    (names : Option (List String)) :
    buildElement site f e names = (buildPath site f p names).andThen requireElement := by
  rw [buildElement, hp]
  dsimp only
  rw [hends, if_neg (by simp)]
  rfl

end XmlPaths
