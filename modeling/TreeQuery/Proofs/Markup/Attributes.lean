import TreeQuery.Markup
import TreeQuery.Proofs.Tree.Walk
import TreeQuery.Tree.Axes

/-!
# Names of attributes in documents from markup

No two attributes of an element mean the same, but what is reported of a name is its local part with the
first qualifier in scope that has its namespace. Names with a qualifier are reported alike only if they
mean the same, because a qualifier stands for one namespace. If the first one is the default, which has
no qualifier, a name is reported like one without a namespace. So attributes of an element may share a
name, but only one without a qualifier, and only where a default namespace is declared.
-/

namespace TreeQuery

namespace Markup

namespace Namespace

/-! ### Scopes -/

/-- Namespaces that can be in scope together. There is a default among them only if `hasDefault`. -/
structure IsScope (hasDefault : Prop) (scope : List Namespace) : Prop where
  /-- A qualifier stands for one namespace. -/
  once : ∀ m ∈ scope, ∀ n ∈ scope, m.qualifier ≠ none → m.qualifier = n.qualifier → m = n
  /-- The qualifier `xml` is not declared. -/
  xml : ∀ n ∈ scope, n.qualifier ≠ some "xml"
  /-- A namespace without a qualifier is the default. -/
  default : ∀ n ∈ scope, n.qualifier = none → hasDefault

variable {hasDefault : Prop} {own inherited scope : List Namespace} {n : Namespace}
  {name : QName} {uri u v q : String}

private theorem isScope_nil : IsScope hasDefault [] := ⟨nofun, nofun, nofun⟩

private theorem qualifier_ne_of_declares {qualifier : Option String}
    (h : declares scope qualifier = false) :
    ∀ m ∈ scope, m.qualifier ≠ qualifier := by
  intro m hm heq
  rw [declares, List.any_eq_false] at h
  exact h m hm (beq_iff_eq.mpr heq)

/-- One more namespace, whose qualifier is new. -/
theorem IsScope.concat (h : IsScope hasDefault scope) (hxml : n.qualifier ≠ some "xml")
    (hnew : n.qualifier ≠ none → ∀ m ∈ scope, m.qualifier ≠ n.qualifier)
    (hdefault : n.qualifier = none → hasDefault) : IsScope hasDefault (scope ++ [n]) := by
  constructor
  · simp only [List.forall_mem_append, List.forall_mem_singleton]
    refine ⟨fun m hm => ⟨h.once m hm, fun hsome heq => ?_⟩, fun m hm hsome heq => ?_, fun _ _ => trivial⟩
    · exact absurd heq (hnew (heq ▸ hsome) m hm)
    · exact absurd heq.symm (hnew hsome m hm)
  · simp only [List.forall_mem_append, List.forall_mem_singleton]
    exact ⟨h.xml, hxml⟩
  · simp only [List.forall_mem_append, List.forall_mem_singleton]
    exact ⟨h.default, hdefault⟩

/-- An attribute with one of these names declares a default namespace. -/
def IsDefaultName (name : QName) : Prop := name.localName = "xmlns" ∧ name.qualifier ≠ some "xmlns"

/-- A declaration puts a namespace behind the others, which has a new qualifier or none, unless it says
about `xml` what holds anyway. -/
theorem IsScope.declare? {own' : List Namespace} (h : IsScope hasDefault own)
    (hname : name.qualifier ≠ some "xmlns" → hasDefault)
    (hdeclare : Namespace.declare? own name uri = some own') : IsScope hasDefault own' := by
  rw [Namespace.declare?, Option.ite_none_left_eq_some] at hdeclare
  obtain ⟨-, hdeclare⟩ := hdeclare
  split at hdeclare
  · split at hdeclare
    · rw [Option.ite_none_right_eq_some] at hdeclare
      exact Option.some.inj hdeclare.2 ▸ h
    · next hxml =>
      rw [Option.ite_none_left_eq_some, Bool.or_eq_true, not_or, Bool.not_eq_true,
        Bool.not_eq_true] at hdeclare
      obtain ⟨⟨-, hnew⟩, hown⟩ := hdeclare
      rw [← Option.some.inj hown]
      refine h.concat (fun heq => hxml (beq_iff_eq.mpr (Option.some.inj heq)))
        (fun _ => qualifier_ne_of_declares hnew) nofun
  · next hqualifier =>
    rw [Option.ite_none_left_eq_some] at hdeclare
    rw [← Option.some.inj hdeclare.2]
    exact h.concat nofun (fun hne => absurd rfl hne) fun _ => hname fun heq =>
      hqualifier (beq_iff_eq.mpr heq)

/-- Several declarations. -/
theorem IsScope.declareAll? {declarations : List (QName × String)} {own' : List Namespace}
    (h : IsScope hasDefault own)
    (hnames : ∀ a ∈ declarations, a.1.qualifier ≠ some "xmlns" → hasDefault)
    (hdeclare : declarations.foldlM (fun own a => Namespace.declare? own a.1 a.2) own = some own') :
    IsScope hasDefault own' := by
  induction declarations generalizing own with
  | nil => exact Option.some.inj hdeclare ▸ h
  | cons a declarations ih =>
    obtain ⟨hname, hnames⟩ := List.forall_mem_cons.mp hnames
    obtain ⟨more, hmore, hrest⟩ := Option.bind_eq_some_iff.mp hdeclare
    exact ih (h.declare? hname hmore) hnames hrest

/-- What an element declares. -/
theorem isScope_declared? {attributes : List (QName × String)}
    (hdefault : ∀ a ∈ attributes, IsDefaultName a.1 → hasDefault)
    (h : declared? attributes = some own) : IsScope hasDefault own := by
  refine isScope_nil.declareAll? (fun a ha hplain => ?_) h
  obtain ⟨hmem, hdeclares⟩ := List.mem_filter.mp ha
  rw [isDeclaration, Bool.or_eq_true, beq_iff_eq, beq_iff_eq, or_iff_right hplain] at hdeclares
  exact hdefault a hmem ⟨hdeclares, hplain⟩

/-- What is in scope in an element that declares something inside another one. -/
theorem isScope_extend (hown : IsScope hasDefault own) (hinherited : IsScope hasDefault inherited) :
    IsScope hasDefault (extend own inherited) := by
  rw [extend]
  split
  · exact hinherited
  · obtain ⟨-, hxml, hdefault⟩ := hinherited
    clear * - hown hxml hdefault
    induction inherited generalizing own with
    | nil => exact hown
    | cons n inherited ih =>
      obtain ⟨hn, hxml⟩ := List.forall_mem_cons.mp hxml
      obtain ⟨hn', hdefault⟩ := List.forall_mem_cons.mp hdefault
      rw [List.foldl_cons]
      split
      · exact ih hown hxml hdefault
      · next hnew =>
        have hnew' := qualifier_ne_of_declares (Bool.not_eq_true _ ▸ hnew)
        exact ih (hown.concat hn (fun _ => hnew') hn') hxml hdefault

/-- A qualifier stands for a namespace in scope. -/
theorem exists_of_resolve? {qualifier : Option String}
    (h : resolve? scope qualifier = some (some uri)) : ∃ n ∈ scope, n.uri = uri := by
  unfold resolve? at h
  cases hfind : scope.find? (fun n => n.qualifier == qualifier) with
  | some n =>
    rw [hfind] at h
    exact ⟨n, List.mem_of_find?_eq_some hfind, Option.some.inj (Option.some.inj h)⟩
  | none =>
    rw [hfind] at h
    cases qualifier with
    | none => exact absurd (Option.some.inj h) nofun
    | some q => exact absurd h nofun

/-! ### Names that are reported -/

/-- The qualifier of a namespace is that of `xml` or one in scope. -/
theorem qualifierOf_eq_some (h : qualifierOf scope uri = some q) :
    (uri = xmlUri ∧ q = "xml") ∨ ∃ n ∈ scope, n.uri = uri ∧ n.qualifier = some q := by
  rw [qualifierOf] at h
  split at h
  · next heq => exact .inl ⟨beq_iff_eq.mp heq, (Option.some.inj h).symm⟩
  · obtain ⟨n, hn, hq⟩ := Option.bind_eq_some_iff.mp h
    have huri := List.find?_some hn
    exact .inr ⟨n, List.mem_of_find?_eq_some hn, beq_iff_eq.mp huri, hq⟩

/-- A qualifier is reported for one namespace only. -/
theorem IsScope.eq_of_qualifierOf (h : IsScope hasDefault scope) (hu : qualifierOf scope u = some q)
    (hv : qualifierOf scope v = some q) : u = v := by
  rcases qualifierOf_eq_some hu with ⟨rfl, hq⟩ | ⟨m, hm, rfl, hmq⟩ <;>
    rcases qualifierOf_eq_some hv with ⟨rfl, hq'⟩ | ⟨n, hn, rfl, hnq⟩
  · rfl
  · exact absurd (hq ▸ hnq) (h.xml n hn)
  · exact absurd (hq' ▸ hmq) (h.xml m hm)
  · rw [h.once m hm n hn (by rw [hmq]; nofun) (hmq.trans hnq.symm)]

/-- A namespace in scope is reported without a qualifier only if it is a default. -/
theorem IsScope.hasDefault_of_qualifierOf (h : IsScope hasDefault scope)
    (hmem : uri = xmlUri ∨ ∃ n ∈ scope, n.uri = uri) (hnone : qualifierOf scope uri = none) :
    hasDefault := by
  rw [qualifierOf] at hnone
  split at hnone
  · contradiction
  · next hxml =>
    obtain heq | ⟨n, hn, huri⟩ := hmem
    · exact absurd (beq_iff_eq.mpr heq) hxml
    · cases hfind : scope.find? (fun m => m.uri == uri) with
      | none => exact absurd (beq_iff_eq.mpr huri) (List.find?_eq_none.mp hfind n hn)
      | some m =>
        rw [hfind] at hnone
        exact h.default m (List.mem_of_find?_eq_some hfind) hnone

end Namespace

namespace ExpandedName

open Namespace

variable {hasDefault : Prop} {scope : List Namespace} {name : QName} {x y : ExpandedName}

/-- Two names that mean different things are reported alike only without a qualifier, and then one of
them is in a default namespace. -/
theorem reported_ne (h : IsScope hasDefault scope) (hne : x ≠ y)
    (hx : ∀ u, x.uri = some u → u = xmlUri ∨ ∃ n ∈ scope, n.uri = u)
    (hy : ∀ u, y.uri = some u → u = xmlUri ∨ ∃ n ∈ scope, n.uri = u)
    (heq : x.reported scope = y.reported scope) :
    (x.reported scope).qualifier = none ∧ hasDefault := by
  obtain ⟨u, l⟩ := x
  obtain ⟨v, l'⟩ := y
  obtain ⟨hqualifier, rfl : l = l'⟩ := QName.mk.inj heq
  change u.bind (qualifierOf scope) = v.bind (qualifierOf scope) at hqualifier
  change u.bind (qualifierOf scope) = none ∧ hasDefault
  have huv : u ≠ v := fun huv => hne (by rw [huv])
  cases hq : u.bind (qualifierOf scope) with
  | some q =>
    rw [hq] at hqualifier
    obtain ⟨u, rfl, hu⟩ := Option.bind_eq_some_iff.mp hq
    obtain ⟨v, rfl, hv⟩ := Option.bind_eq_some_iff.mp hqualifier.symm
    exact absurd (congrArg some (h.eq_of_qualifierOf hu hv)) huv
  | none =>
    rw [hq] at hqualifier
    refine ⟨rfl, ?_⟩
    cases u with
    | some u => exact h.hasDefault_of_qualifierOf (hx u rfl) hq
    | none =>
      cases v with
      | some v => exact h.hasDefault_of_qualifierOf (hy v rfl) hqualifier.symm
      | none => exact absurd rfl huv

/-- The namespace that the name of an attribute means is that of `xml` or in scope. -/
theorem uri_ofAttribute? (h : ofAttribute? scope name = some x) :
    ∀ u, x.uri = some u → u = xmlUri ∨ ∃ n ∈ scope, n.uri = u := by
  rintro u hu
  rw [ofAttribute?] at h
  split at h
  · rw [← Option.some.inj h] at hu
    contradiction
  · rw [← Option.some.inj h] at hu
    exact .inl (Option.some.inj hu).symm
  · obtain ⟨uri, huri, rfl⟩ := Option.map_eq_some_iff.mp h
    exact .inr (exists_of_resolve? (huri.trans (congrArg some hu)))

end ExpandedName

namespace Draft

open Namespace

variable {hasDefault : Prop} {scope : List Namespace} {attributes : List (QName × String)}
  {expanded : List (ExpandedName × String)}

private theorem exists_of_mem_mapM {α β : Type} {f : α → Option β} {as : List α} {bs : List β} {b : β}
    (h : as.mapM f = some bs) (hb : b ∈ bs) : ∃ a ∈ as, f a = some b := by
  induction as generalizing bs with
  | nil =>
    rw [← Option.some.inj h] at hb
    contradiction
  | cons a as ih =>
    rw [List.mapM_cons] at h
    obtain ⟨first, hfirst, h⟩ := Option.bind_eq_some_iff.mp h
    obtain ⟨rest, hrest, h⟩ := Option.bind_eq_some_iff.mp h
    rw [← Option.some.inj h] at hb
    rcases List.mem_cons.mp hb with rfl | hb
    · exact ⟨a, List.mem_cons_self, hfirst⟩
    · obtain ⟨a', ha', hvalue⟩ := ih hrest hb
      exact ⟨a', List.mem_cons_of_mem a ha', hvalue⟩

/-- Every attribute that is not a declaration means a name. -/
theorem exists_of_mem_expanded {a : ExpandedName × String}
    (h : expandAttributes? scope attributes = some expanded) (ha : a ∈ expanded) :
    ∃ name, ExpandedName.ofAttribute? scope name = some a.1 := by
  obtain ⟨meant, hmeant, h⟩ := Option.bind_eq_some_iff.mp h
  obtain ⟨-, -, h⟩ := Option.bind_eq_some_iff.mp h
  rw [Option.some.inj h] at hmeant
  obtain ⟨b, -, hb⟩ := exists_of_mem_mapM hmeant ha
  obtain ⟨name, hname, rfl⟩ := Option.map_eq_some_iff.mp hb
  exact ⟨b.1, hname⟩

private theorem nodup_expanded (h : expandAttributes? scope attributes = some expanded) :
    (expanded.map Prod.fst).Nodup := by
  obtain ⟨meant, -, h⟩ := Option.bind_eq_some_iff.mp h
  obtain ⟨_, hguard, h⟩ := Option.bind_eq_some_iff.mp h
  rw [← Option.some.inj h]
  by_contra hnot
  exact absurd (hguard.symm.trans (if_neg hnot)) nofun

/-- The attributes of an element as they are reported. -/
theorem pairwise_reported (h : IsScope hasDefault scope)
    (hexpanded : expandAttributes? scope attributes = some expanded) :
    (expanded.map fun a => a.1.reported scope).Pairwise fun a b =>
      a = b → a.qualifier = none ∧ hasDefault := by
  have hmeant : ∀ a ∈ expanded, ∀ u, a.1.uri = some u → u = xmlUri ∨ ∃ n ∈ scope, n.uri = u := by
    intro a ha
    obtain ⟨name, hname⟩ := exists_of_mem_expanded hexpanded ha
    exact ExpandedName.uri_ofAttribute? hname
  have hnodup := List.pairwise_map.mp (nodup_expanded hexpanded)
  refine List.pairwise_map.mpr (hnodup.imp_of_mem fun ha hb hne heq => ?_)
  exact ExpandedName.reported_ne h hne (hmeant _ ha) (hmeant _ hb) heq

end Draft

end Markup

/-! ### Attributes of a tree -/

namespace Tree

/-- The names of the attributes of a node, in order. -/
def attributeNames (t : Tree) (n : Nat) : List QName := (t.attributes n).filterMap t.name?

variable {t : Tree} {p : Nat}

private theorem name?_modify_push (hp : p < t.size) {f : NodeData → NodeData} {d : NodeData} (n : Nat)
    (hf : ∀ e, (f e).name = e.name) :
    name? ⟨(t.nodes.modify p f).push d⟩ n = if n = t.size then d.name else t.name? n := by
  rw [name?, node_modify_push hp]
  split
  · rfl
  · split
    · exact hf _
    · rfl

/-- A child more does not change the names of attributes. -/
theorem Joined.attributeNames_addChild (ht : t.Joined) (hp : p < t.size) {kind : NodeKind}
    (hkind : kind ≠ .attribute) (name : Option QName) (value : String) (n : Nat) :
    (t.addChild p kind name value).attributeNames n = t.attributeNames n := by
  have hattributes : (t.addChild p kind name value).attributes n = t.attributes n := by
    rw [(extends_addChild hp hkind name value).attributes, if_neg fun h => hkind h.2]
  rw [attributeNames, hattributes]
  refine List.filterMap_congr fun a ha => ?_
  have hlt := ht.lt_size a n ((ht.mem_attributes n a).mp ha).1
  rw [addChild, name?_modify_push hp a, if_neg (Nat.ne_of_lt hlt)]
  exact fun _ => rfl

/-- An attribute more has its name behind the others. -/
theorem Joined.attributeNames_addAttribute (ht : t.Joined) (hp : p < t.size) (name : QName)
    (value : String) (n : Nat) :
    (t.addAttribute p name value).attributeNames n =
      if n = p then t.attributeNames n ++ [name] else t.attributeNames n := by
  have hname (a : Nat) : (t.addAttribute p name value).name? a =
      if a = t.size then some name else t.name? a := by
    rw [addAttribute, name?_modify_push hp a]
    exact fun _ => rfl
  have hsame : (t.attributes n).filterMap (t.addAttribute p name value).name? = t.attributeNames n := by
    refine List.filterMap_congr fun a ha => ?_
    have hlt := ht.lt_size a n ((ht.mem_attributes n a).mp ha).1
    rw [hname, if_neg (Nat.ne_of_lt hlt)]
  rw [attributeNames, (extends_addAttribute hp name value).attributes]
  by_cases hn : n = p
  · rw [if_pos ⟨hn, rfl⟩, if_pos hn, List.filterMap_append, hsame, List.filterMap_cons, hname, if_pos rfl]
    rfl
  · rw [if_neg fun h => hn h.1, if_neg hn, hsame]

/-- Several attributes of one node have their names behind the others. -/
theorem Built.addAttributes (ht : t.Built) (hp : t.IsBranch p) (attributes : List (QName × String)) :
    let t' := attributes.foldl (fun t a => t.addAttribute p a.1 a.2) t
    t'.Built ∧ (∀ q, t.IsBranch q → t'.IsBranch q) ∧ ∀ n, t'.attributeNames n =
      if n = p then t.attributeNames n ++ attributes.map Prod.fst else t.attributeNames n := by
  induction attributes generalizing t with
  | nil => exact ⟨ht, fun _ h => h, fun n => by simp⟩
  | cons a attributes ih =>
    have hextends := extends_addAttribute hp.lt a.1 a.2
    obtain ⟨hbuilt, hbranch, hnames⟩ :=
      ih (.addAttribute ht hp a.1 a.2) (hextends.isBranch hp)
    refine ⟨hbuilt, fun q hq => hbranch q (hextends.isBranch hq), fun n => ?_⟩
    rw [List.foldl_cons, hnames, ht.linked.attributeNames_addAttribute hp.lt]
    by_cases hn : n = p
    · simp [hn]
    · simp [hn]

end Tree

/-! ### Documents -/

namespace Markup

/-- An event is the start of an element that declares a default namespace. -/
def Event.DeclaresDefault : Event → Prop
  | .start _ attributes => ∃ a ∈ attributes, Namespace.IsDefaultName a.1
  | _ => False

namespace Draft

open Namespace

variable {hasDefault : Prop} {d d' : Draft} {name : QName} {attributes : List (QName × String)}

/-- What holds of a tree while it is being built. -/
structure IsSound (hasDefault : Prop) (d : Draft) : Prop where
  /-- The tree is built by calls. -/
  built : d.tree.Built
  /-- The open elements are branches of it. -/
  branch : ∀ e ∈ d.opened, d.tree.IsBranch e.id
  /-- What is in scope in them can be in scope together. -/
  scope : ∀ e ∈ d.opened, IsScope hasDefault e.scope
  /-- Attributes of a node share only names that were stripped of a default namespace. -/
  names : ∀ n, (d.tree.attributeNames n).Pairwise fun a b => a = b → a.qualifier = none ∧ hasDefault

private theorem isSound_empty : IsSound hasDefault empty where
  built := .empty
  branch := nofun
  scope := nofun
  names n := by
    have hnone : Tree.empty.attributeNames n = [] := by
      cases n <;> rfl
    rw [empty, hnone]
    exact .nil

namespace IsSound

private theorem isBranch_parent (hd : d.IsSound hasDefault) : d.tree.IsBranch d.parent := by
  have hbranch := hd.branch
  rw [parent]
  cases hopened : d.opened with
  | nil => exact ⟨hd.built.linked.pos, .inl hd.built.linked.kind_zero⟩
  | cons e opened =>
    rw [hopened] at hbranch
    exact hbranch e List.mem_cons_self

private theorem isScope_scope (hd : d.IsSound hasDefault) : IsScope hasDefault d.scope := by
  have hscope := hd.scope
  rw [Draft.scope]
  cases hopened : d.opened with
  | nil => exact isScope_nil
  | cons e opened =>
    rw [hopened] at hscope
    exact hscope e List.mem_cons_self

/-- A child more, which is no element. -/
theorem addChild (hd : d.IsSound hasDefault) {kind : NodeKind} (hkind : kind ≠ .attribute)
    {name : Option QName} {value : String} (hbuilt : (d.tree.addChild d.parent kind name value).Built) :
    IsSound hasDefault ⟨d.tree.addChild d.parent kind name value, d.opened⟩ := by
  have hparent := hd.isBranch_parent.lt
  refine ⟨hbuilt, fun e he => ?_, hd.scope, fun n => ?_⟩
  · exact (Tree.extends_addChild hparent hkind name value).isBranch (hd.branch e he)
  · rw [hd.built.linked.attributeNames_addChild hparent hkind]
    exact hd.names n

private theorem start? (hd : d.IsSound hasDefault)
    (hdefault : ∀ a ∈ attributes, IsDefaultName a.1 → hasDefault)
    (h : d.start? name attributes = some d') : d'.IsSound hasDefault := by
  obtain ⟨_, -, h⟩ := Option.bind_eq_some_iff.mp h
  obtain ⟨own, hown, h⟩ := Option.bind_eq_some_iff.mp h
  obtain ⟨expanded, hexpanded, h⟩ := Option.bind_eq_some_iff.mp h
  obtain ⟨meant, -, h⟩ := Option.bind_eq_some_iff.mp h
  have hscope := isScope_extend (isScope_declared? hdefault hown) hd.isScope_scope
  generalize extend own d.scope = scope at *
  have hparent := hd.isBranch_parent
  have hextends : Tree.Extends (d.tree.addElement d.parent (meant.reported scope)) d.tree d.parent
      .element := Tree.extends_addChild hparent.lt (by decide) _ _
  have hnew := Tree.isBranch_addElement hparent.lt (meant.reported scope)
  obtain ⟨hbuilt, hbranch, hnames⟩ := (Tree.Built.addElement hd.built hparent _).addAttributes hnew
    (expanded.map fun a => (a.1.reported scope, a.2))
  rw [List.foldl_map] at hbuilt hbranch hnames
  rw [← Option.some.inj h]
  refine ⟨hbuilt, ?_, List.forall_mem_cons.mpr ⟨hscope, hd.scope⟩, fun n => ?_⟩
  · exact List.forall_mem_cons.mpr
      ⟨hbranch _ hnew, fun e he => hbranch _ (hextends.isBranch (hd.branch e he))⟩
  · have hold : (d.tree.addElement d.parent (meant.reported scope)).attributeNames n =
        d.tree.attributeNames n :=
      hd.built.linked.attributeNames_addChild hparent.lt (by decide) _ _ n
    rw [hnames, hold]
    split
    · next hn =>
      have hnone : d.tree.attributeNames n = [] := by
        rw [hn, Tree.attributeNames, Tree.attributes, Tree.node_of_size_le (Nat.le_refl _)]
        rfl
      rw [hnone, List.nil_append, List.map_map]
      exact pairwise_reported hscope hexpanded
    · exact hd.names n

private theorem stop? (hd : d.IsSound hasDefault) (h : d.stop? name = some d') :
    d'.IsSound hasDefault := by
  obtain ⟨hbuilt, hbranch, hscope, hnames⟩ := hd
  rw [Draft.stop?] at h
  split at h
  · contradiction
  · next e opened hopened =>
    rw [hopened] at hbranch hscope
    rw [Option.ite_none_right_eq_some] at h
    rw [← Option.some.inj h.2]
    exact ⟨hbuilt, (List.forall_mem_cons.mp hbranch).2, (List.forall_mem_cons.mp hscope).2, hnames⟩

/-- One more event. -/
theorem add? (hd : d.IsSound hasDefault) {e : Event} (hdefault : e.DeclaresDefault → hasDefault)
    (h : d.add? e = some d') : d'.IsSound hasDefault := by
  have hparent := hd.isBranch_parent
  cases e with
  | start name attributes => exact hd.start? (fun a ha hname => hdefault ⟨a, ha, hname⟩) h
  | stop name => exact hd.stop? h
  | text value => exact Option.some.inj h ▸ hd.addChild (by decide) (.addText hd.built hparent value)
  | comment value =>
    exact Option.some.inj h ▸ hd.addChild (by decide) (.addComment hd.built hparent value)
  | instruction target value =>
    exact Option.some.inj h ▸ hd.addChild (by decide) (.addInstruction hd.built hparent _ value)

/-- All events. -/
theorem foldlM_add? {events : List Event} (hd : d.IsSound hasDefault)
    (hdefault : ∀ e ∈ events, e.DeclaresDefault → hasDefault)
    (h : events.foldlM Draft.add? d = some d') : d'.IsSound hasDefault := by
  induction events generalizing d with
  | nil => exact Option.some.inj h ▸ hd
  | cons e events ih =>
    obtain ⟨hfirst, hrest⟩ := List.forall_mem_cons.mp hdefault
    obtain ⟨next, hnext, h⟩ := Option.bind_eq_some_iff.mp h
    exact ih (hd.add? hfirst hnext) hrest h

end IsSound

end Draft

end Markup

namespace Tree

open Markup

variable {t : Tree} {text : String}

/-- A markup text declares a default namespace in one of its elements. -/
def DeclaresDefault (text : String) : Prop :=
  ∃ events, Event.ofText? text.toList = some events ∧ ∃ e ∈ events, e.DeclaresDefault

private theorem isSound_ofMarkup? (h : ofMarkup? text = some t) :
    t.Built ∧ ∀ n, (t.attributeNames n).Pairwise fun a b =>
      a = b → a.qualifier = none ∧ DeclaresDefault text := by
  obtain ⟨events, hevents, h⟩ := Option.bind_eq_some_iff.mp h
  obtain ⟨draft, hdraft, h⟩ := Option.bind_eq_some_iff.mp h
  obtain ⟨_, -, h⟩ := Option.bind_eq_some_iff.mp h
  have hsound : draft.IsSound (DeclaresDefault text) :=
    Draft.isSound_empty.foldlM_add? (fun e he hdeclares => ⟨events, hevents, e, he, hdeclares⟩) hdraft
  rw [← Option.some.inj h]
  exact ⟨hsound.built, hsound.names⟩

/-- Reading a document from markup is building it by calls. -/
theorem built_ofMarkup? (h : ofMarkup? text = some t) : t.Built :=
  (isSound_ofMarkup? h).1

/-- The attributes of an element have different names, except that several may be reported without
their qualifiers where a default namespace is declared. -/
theorem pairwise_attributeNames_ofMarkup? (h : ofMarkup? text = some t) (n : Nat) :
    (t.attributeNames n).Pairwise fun a b => a = b → a.qualifier = none ∧ DeclaresDefault text :=
  (isSound_ofMarkup? h).2 n

/-- They do share a name where the first qualifier in scope for their namespace is the default. -/
example : (ofMarkup? "<e xmlns=\"u\" xmlns:p=\"u\" a=\"1\" p:a=\"2\"/>").map (attributeNames · 1) =
    some [.simple "a", .simple "a"] := by decide +kernel

/-- A name test chooses at most one attribute of a node, unless it has no qualifier and a default
namespace is declared. -/
theorem length_named_attributes_le (h : ofMarkup? text = some t) (n : Nat) (name : QName)
    (hname : name.qualifier = none → ¬DeclaresDefault text) :
    ((t.along .attribute n).filter (t.passes .attribute (.named name))).length ≤ 1 := by
  have hpassed : ∀ a, t.passes .attribute (.named name) a = true → t.name? a = some name := by
    intro a ha
    obtain ⟨other, hother, heq⟩ := (Option.any_eq_true ..).mp (Bool.and_eq_true_iff.mp ha).2
    rw [hother, beq_iff_eq.mp heq]
  have hnever : ((t.attributes n).filter (t.passes .attribute (.named name))).Pairwise
      fun _ _ => False := by
    have hnames := List.pairwise_filterMap.mp (pairwise_attributeNames_ofMarkup? h n)
    refine (hnames.filter _).imp_of_mem fun ha hb hab => ?_
    obtain ⟨hnone, hdefault⟩ := hab name (hpassed _ (List.mem_filter.mp ha).2) name
      (hpassed _ (List.mem_filter.mp hb).2) rfl
    exact hname hnone hdefault
  rw [along]
  split
  · cases hfiltered : (t.attributes n).filter (t.passes .attribute (.named name)) with
    | nil => exact Nat.zero_le _
    | cons a rest =>
      rw [hfiltered, List.pairwise_cons] at hnever
      rw [List.eq_nil_iff_forall_not_mem.mpr hnever.1]
      exact Nat.le_refl _
  · exact Nat.zero_le _

end Tree

end TreeQuery
