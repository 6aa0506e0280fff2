import TreeQuery.Evaluation.Call
import TreeQuery.Item.Access
import TreeQuery.Item.Cast
import TreeQuery.Operator.Comparison
import TreeQuery.Operator.Joining
import TreeQuery.Proofs.Item.Table

/-!
# Properties that values pass on

A property of values is closed if everything has it that is put together from values that have it,
and if whatever is taken out of such a value has it too. Then sequences, tables, operators and casts
give values with the property.
-/

namespace TreeQuery

/-- What a computation gives, if it does not fail, has a property. -/
def Gives {α : Type} (P : α → Prop) (r : Except EvalError α) : Prop := ∀ a, r = .ok a → P a

namespace Gives

variable {α β : Type} {P : α → Prop} {Q : β → Prop}

/-- A result gives what holds of it. -/
theorem ok {a : α} (h : P a) : Gives P (.ok a) := by
  rintro _ ⟨rfl⟩
  exact h

theorem error (e : EvalError) : Gives P (.error e) := nofun

/-- Two steps in turn give what the second one gives of every result of the first. -/
theorem bind {r : Except EvalError α} {f : α → Except EvalError β} (hr : Gives P r)
    (hf : ∀ a, P a → Gives Q (f a)) : Gives Q (r >>= f) := by
  cases r with
  | error e => exact error e
  | ok a => exact hf a (hr a rfl)

/-- Nothing has to be known of the first result where the second one is right for all of them. -/
theorem bind_any {r : Except EvalError α} {f : α → Except EvalError β} (hf : ∀ a, Gives Q (f a)) :
    Gives Q (r >>= f) :=
  bind (P := fun _ => True) (fun _ _ => trivial) fun a _ => hf a

/-- Changing a result gives what holds of what it is changed to. -/
theorem map {r : Except EvalError α} {f : α → β} (hr : Gives P r) (hf : ∀ a, P a → Q (f a)) :
    Gives Q (r.map f) := by
  cases r with
  | error e => exact error e
  | ok a => exact ok (hf a (hr a rfl))

/-- What holds of all that a result can be changed to is given in any case. -/
theorem map_any {r : Except EvalError α} {f : α → β} (hf : ∀ a, Q (f a)) : Gives Q (r.map f) :=
  map (P := fun _ => True) (fun _ _ => trivial) fun a _ => hf a

/-- A step for each member of a list gives what each of the steps gives. -/
theorem mapM {f : α → Except EvalError β} {as : List α} (hf : ∀ a ∈ as, Gives Q (f a)) :
    Gives (fun bs => ∀ b ∈ bs, Q b) (as.mapM f) := by
  induction as with
  | nil => exact ok fun _ h => absurd h List.not_mem_nil
  | cons a as ih =>
    rw [List.forall_mem_cons] at hf
    rw [List.mapM_cons]
    refine hf.1.bind fun b hb => (ih hf.2).bind fun bs hbs => ok ?_
    exact List.forall_mem_cons.mpr ⟨hb, hbs⟩

end Gives

/-- Whether an item is a sequence. -/
def Item.isSequence : Item → Bool
  | .sequence _ => true
  | _ => false

/-- Values that all have a property. -/
def AllHave (W : Item → Prop) (values : List Item) : Prop := ∀ v ∈ values, W v

/-- Arguments of a call that have a property where there are any. -/
def ArgumentsHave (W : Item → Prop) (args : List (Option Item)) : Prop := ∀ a, some a ∈ args → W a

section

variable {W : Item → Prop}

@[simp] theorem allHave_nil : AllHave W [] := fun _ h => absurd h List.not_mem_nil

@[simp] theorem allHave_cons {v : Item} {vs : List Item} :
    AllHave W (v :: vs) ↔ W v ∧ AllHave W vs := List.forall_mem_cons

/-- What all of two lists have is what all of both have. -/
theorem AllHave.append {vs ws : List Item} (hv : AllHave W vs) (hw : AllHave W ws) :
    AllHave W (vs ++ ws) := List.forall_mem_append.mpr ⟨hv, hw⟩

/-- What all of some lists have is what all of them together have. -/
theorem AllHave.flatten {vss : List (List Item)} (h : ∀ vs ∈ vss, AllHave W vs) :
    AllHave W vss.flatten := by
  intro v hv
  obtain ⟨vs, hvs, hv⟩ := List.mem_flatten.mp hv
  exact h vs hvs v hv

/-- Values that are made in one way all have what that way gives. -/
theorem allHave_map {α : Type} {f : α → Item} (hf : ∀ a, W (f a)) (as : List α) :
    AllHave W (as.map f) := by
  intro v hv
  obtain ⟨a, -, rfl⟩ := List.mem_map.mp hv
  exact hf a

@[simp] theorem argumentsHave_nil : ArgumentsHave W [] := fun _ h => absurd h List.not_mem_nil

@[simp] theorem argumentsHave_none_cons {args : List (Option Item)} :
    ArgumentsHave W (none :: args) ↔ ArgumentsHave W args := by
  simp [ArgumentsHave]

@[simp] theorem argumentsHave_some_cons {a : Item} {args : List (Option Item)} :
    ArgumentsHave W (some a :: args) ↔ W a ∧ ArgumentsHave W args := by
  simp only [ArgumentsHave, List.mem_cons, Option.some.injEq]
  exact ⟨fun h => ⟨h a (.inl rfl), fun b hb => h b (.inr hb)⟩,
    fun h b hb => hb.elim (fun heq => heq ▸ h.1) (h.2 b)⟩

end

/-- A property of values that is kept by putting values together and by taking them apart. -/
structure Item.Closed (W : Item → Prop) : Prop where
  ofAtomic (a : Atomic) : W (.ofAtomic a)
  node (n : Node) : W (.node n)
  named (name : QName) (arity : Nat) : W (.function (.named name arity))
  inline (params : List Param) (result : Option SequenceType) (body : Expr) :
    W (.function (.inline params result body))
  /-- A call waits for arguments of a value that takes as many as there are, with those that are open. -/
  waiting {base : Item} {args : List (Option Item)} :
    base.arity = .ok args.length → W base → ArgumentsHave W args → W (.function (.waiting base args))
  ofWaiting {base : Item} {args : List (Option Item)} :
    W (.function (.waiting base args)) → W base ∧ ArgumentsHave W args
  array {members : List Item} : AllHave W members → W (.array members)
  ofArray {members : List Item} : W (.array members) → AllHave W members
  /-- A value is put into a map. -/
  put {entries : Table Item} {value : Item} (key : MapKey) :
    W (.map entries) → W value → W (.map (Table.put key value entries))
  /-- A map is made of entries. -/
  ofEntries {entries : List (MapKey × Item)} :
    AllHave W (Table.values entries) → Gives W ((Table.ofEntries entries).map .map)
  ofMap {entries : Table Item} : W (.map entries) → AllHave W (Table.values entries)
  items {value : Item} : W value → AllHave W value.items
  ofList {values : List Item} : AllHave W values → W (.ofList values)

/-! ### Maps and arrays -/

namespace Table

variable {V : Type}

/-- Entries make a table only if their keys are different, and then all of their values are in it. -/
theorem gives_ofEntries (entries : List (MapKey × V)) :
    Gives (fun u => (keys u).Nodup ∧ values u = values entries) (ofEntries entries) := by
  intro u hu
  obtain ⟨hkeys, rfl⟩ := ofEntries_eq_ok_iff.mp hu
  exact ⟨hkeys, rfl⟩

end Table

namespace Item

/-- Items that are not just one are a sequence. -/
theorem ofItems_of_length_ne_one {items : List Item} (h : items.length ≠ 1) :
    ofItems items = .sequence items := by
  unfold ofItems
  split
  · exact absurd rfl h
  · rfl

/-- Splicing does nothing to items that are neither sequences nor errors. -/
theorem ofList_eq_ofItems {items : List Item}
    (h : ∀ i ∈ items, i.isSequence = false ∧ i.error? = none) : ofList items = ofItems items := by
  have herror : items.findSome? error? = none :=
    List.findSome?_eq_none_iff.mpr fun i hi => (h i hi).2
  have hspliced : items.flatMap spliced = items.flatMap fun i => [i] := by
    refine List.flatMap_congr fun i hi => ?_
    have hi := (h i hi).1
    cases i <;> first | rfl | contradiction
  rw [ofList, herror, hspliced, List.flatMap_singleton']

variable {W : Item → Prop} {forest : Forest}

/-- A member of an array has what all members have. -/
theorem gives_memberAt {members : List Item} (h : AllHave W members) (index : Int64) :
    Gives W (memberAt members index) := by
  unfold memberAt
  dsimp only
  split
  · exact .error _
  · split
    · next hmember => exact .ok (h _ (List.mem_of_getElem? hmember))
    · exact .error _

/-- The result that a value is has what the value has. -/
theorem gives_toResult {value : Item} (h : W value) : Gives W value.toResult := by
  cases value with
  | error e => exact .error e
  | _ => exact .ok h

private theorem gives_onOperands {left right : Item} {result : Except EvalError Item}
    (h : Gives W result) : Gives W (onOperands left right result) := by
  unfold onOperands
  split
  · exact .error _
  · exact .error _
  · exact h

/-- Every value has a property that says nothing. -/
theorem closed_true : Closed fun _ => True where
  ofAtomic _ := trivial
  node _ := trivial
  named _ _ := trivial
  inline _ _ _ := trivial
  waiting _ _ _ := trivial
  ofWaiting _ := ⟨trivial, fun _ _ => trivial⟩
  array _ := trivial
  ofArray _ := fun _ _ => trivial
  put _ _ _ := trivial
  ofEntries _ := fun _ _ => trivial
  ofMap _ := fun _ _ => trivial
  items _ := fun _ _ => trivial
  ofList _ := trivial

namespace Closed

variable (hW : Closed W)

include hW

theorem integer (i : Int64) : W (.integer i) := hW.ofAtomic (.integer i)

theorem decimal (d : Decimal) : W (.decimal d) := hW.ofAtomic (.decimal d)

theorem double (x : Float) : W (.double x) := hW.ofAtomic (.double x)

theorem string (s : String) : W (.string s) := hW.ofAtomic (.string s)

theorem boolean (b : Bool) : W (.boolean b) := hW.ofAtomic (.boolean b)

theorem empty : W empty := hW.ofList allHave_nil

/-- Sets of nodes have it. -/
theorem ofNodes (nodes : List Node) : W (ofNodes nodes) := by
  have hlist := hW.ofList (allHave_map hW.node nodes)
  rwa [ofList_eq_ofItems] at hlist
  intro i hi
  obtain ⟨n, -, rfl⟩ := List.mem_map.mp hi
  exact ⟨rfl, rfl⟩

private theorem ofIntegersFrom (first : Int64) (length : Nat) :
    W (ofItems (integersFrom first length)) := by
  have hlist := hW.ofList (allHave_map (fun (k : Nat) =>
    hW.integer (Int64.ofInt (first.toInt + k))) (List.range length))
  rwa [ofList_eq_ofItems] at hlist
  intro i hi
  obtain ⟨k, -, rfl⟩ := List.mem_map.mp hi
  exact ⟨rfl, rfl⟩

/-! ### Maps and arrays -/

/-- The value of a key in a map that has it has it. -/
theorem valueOf {entries : Table Item} (h : W (.map entries)) (key : MapKey) :
    W (valueOf entries key) := by
  unfold Item.valueOf
  cases hget : Table.get? key entries with
  | none => exact hW.empty
  | some v => exact hW.ofMap h v (Table.mem_values_of_get? hget)

private theorem gives_lookupIn {item : Item} (h : W item) (key : LookupKey)
    (keys : Option (List Atomic)) :
    Gives (AllHave W) (lookupIn key keys item) := by
  cases item with
  | map entries =>
    cases keys with
    | none => exact .ok (hW.ofMap h)
    | some keys =>
      refine .ok fun v hv => ?_
      obtain ⟨k, -, hget⟩ := List.mem_filterMap.mp hv
      exact hW.ofMap h v (Table.mem_values_of_get? hget)
  | array members =>
    cases keys with
    | none => exact .ok (hW.ofArray h)
    | some keys => exact .mapM fun k _ => .bind_any fun i => gives_memberAt (hW.ofArray h) i
  | _ => exact .error _

/-- What is looked up in a value that has it has it. -/
theorem gives_lookup {value : Item} (h : W value) (key : LookupKey) (keys : Option (List Atomic)) :
    Gives W (lookup key keys value) := by
  refine Gives.map (.mapM fun i hi => hW.gives_lookupIn (hW.items h i hi) key keys) ?_
  exact fun found hfound => hW.ofList (.flatten hfound)

/-! ### Operators and casts -/

private theorem gives_map_ofAtomic (r : Except EvalError Atomic) : Gives W (r.map .ofAtomic) :=
  .map_any fun a => hW.ofAtomic a

private theorem gives_onAtomicOperands {left right : Item}
    {result : Atomic → Atomic → Except EvalError Item}
    (h : ∀ a b, Gives W (result a b)) : Gives W (onAtomicOperands forest left right result) := by
  refine gives_onOperands (.bind_any fun a => .bind_any fun b => ?_)
  split
  · exact h _ _
  · exact .ok hW.empty

/-- The result of an arithmetic operator has it, whatever the operands. -/
theorem gives_arithmetic (op : ArithmeticOp) (left right : Item) :
    Gives W (arithmetic forest op left right) :=
  hW.gives_onAtomicOperands fun _ _ => hW.gives_map_ofAtomic _

/-- The result of a sign has it. -/
theorem gives_withSign (sign : Sign) (operand : Item) : Gives W (withSign forest sign operand) := by
  refine .bind_any fun a => ?_
  split
  · exact hW.gives_map_ofAtomic _
  · exact .ok hW.empty

/-- The result of a comparison has it. -/
theorem gives_compare (comparison : Comparison) (left right : Item) :
    Gives W (compare forest comparison left right) := by
  cases comparison with
  | value relation =>
    exact hW.gives_onAtomicOperands fun _ _ => .bind_any fun _ => .ok (hW.boolean _)
  | general relation =>
    exact gives_onOperands
      (.bind_any fun _ => .bind_any fun _ => .bind_any fun _ => .ok (hW.boolean _))
  | node relation =>
    refine gives_onOperands (.bind_any fun a => .bind_any fun b => ?_)
    split
    · exact .ok (hW.boolean _)
    · exact .ok hW.empty

/-- Two texts put together have it. -/
theorem gives_concat (left right : Item) : Gives W (concat forest left right) :=
  gives_onOperands (.bind_any fun _ => .bind_any fun _ => .ok (hW.string _))

/-- A range of integers has it. -/
theorem gives_range (limit : Nat) (left right : Item) : Gives W (range forest limit left right) := by
  refine hW.gives_onAtomicOperands fun a b => .bind_any fun _ => .bind_any fun _ => ?_
  dsimp only
  split
  · exact .error _
  · exact .ok (hW.ofIntegersFrom _ _)

/-- The result of a set operator has it. -/
theorem gives_combineNodes (op : SetOp) (left right : Item) :
    Gives W (combineNodes forest op left right) :=
  gives_onOperands (.bind_any fun _ => .bind_any fun _ => .ok (hW.ofNodes _))

/-- The result of a cast has it. -/
theorem gives_cast (target : SingleType) (value : Item) : Gives W (cast forest target value) := by
  refine .bind_any fun a => ?_
  split
  · exact hW.gives_map_ofAtomic _
  · split
    · exact .ok hW.empty
    · exact .error _

end Closed

end Item

end TreeQuery
