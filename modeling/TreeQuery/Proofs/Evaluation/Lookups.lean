import TreeQuery.Proofs.Evaluation.Values
import TreeQuery.Proofs.Item.Access

/-!
# Ways to read a map or an array

A lookup, a call of the map or the array itself, and a function of the library each turn the value of an
expression into a key or a position on their own. For one atomic key all of them find the same, and for a
position that does not exist they have the same error.
-/

namespace TreeQuery.Eval

/-- `base?(key)` -/
def lookedUp (base key : Expr) : Expr := base.link (.lookup (.computed key))

/-- `base(key)` -/
def calledWith (base key : Expr) : Expr := base.link (.call [.value key])

/-- A function of the library that reads the value of an expression, as `map:get(base, key)` does. -/
def readBy (name : QName) (base key : Expr) : Expr := .call name [.value base, .value key]

/-- An expression for one key: it evaluates to something that has one atomic value. -/
def HasKey (c : Context) (key : Expr) (a : Atomic) : Prop :=
  ∃ value, valueIn .library c key = .ok value ∧ value.atomizeOptional c.forest = .ok (some a)

variable {c : Context} {base key : Expr} {value : Item} {a : Atomic} {entries : Table Item}
  {members : List Item}

/-! ### One key -/

private theorem valueIn_lookedUp (hbase : valueIn .library c base = .ok value) (key : Expr) :
    valueIn .library c (lookedUp base key) = valueIn .library c key >>= fun keys =>
      keys.atomize c.forest >>= fun as => value.lookup (.computed key) (some as) := by
  rw [lookedUp, valueIn_link Registry.keeps_library, hbase]
  change ((links .library (deeperFrom .library c) value [.lookup (.computed key)]).run.run c).1 = _
  simp only [links, lookup, bind_pure]
  rw [run_bind, run_expr_eq_valueIn Registry.keeps_library]
  cases valueIn .library c key <;> rfl

private theorem valueIn_lookedUp_of_hasKey (hbase : valueIn .library c base = .ok value)
    (hkey : HasKey c key a) :
    valueIn .library c (lookedUp base key) = value.lookup (.computed key) (some [a]) := by
  obtain ⟨k, hk, hatomize⟩ := hkey
  rw [valueIn_lookedUp hbase, hk]
  change (k.atomize c.forest >>= fun as => value.lookup (.computed key) (some as)) = _
  rw [Item.atomize_of_atomizeOptional hatomize]
  rfl

private theorem valueIn_calledWith (hbase : valueIn .library c base = .ok value) {k : Item}
    (hk : valueIn .library c key = .ok k) :
    valueIn .library c (calledWith base key) =
      ((callItem .library (deeperFrom .library c) value [k]).run.run c).1 := by
  have hargs : (arguments .library (deeperFrom .library c) [.value key]).run.run c =
      (.ok [some k], c) :=
    (evaluate_of_valueIn Registry.keeps_library (.cons hk .nil)).run_arguments
  rw [calledWith, valueIn_link Registry.keeps_library, hbase]
  change ((links .library (deeperFrom .library c) value [.call [.value key]]).run.run c).1 = _
  simp only [links, bind_pure]
  rw [run_bind_ok hargs, ← List.map_singleton, callByValue_complete]

/-- Such a function gives what its rule says of the two values. -/
theorem valueIn_readBy {name : QName} {text : String}
    {read : Forest → Item → Item → Except EvalError Item} (hname : constructorType? name = none)
    (hf : Registry.library.resolve? name = some (.binary text read)) (hdepth : c.depth < c.limits.depth)
    (hbase : valueIn .library c base = .ok value) {k : Item} (hk : valueIn .library c key = .ok k) :
    valueIn .library c (readBy name base key) = read c.forest value k >>= Item.toResult := by
  have hes : List.Forall₂ (fun e v => valueIn .library c e = .ok v) [base, key] [value, k] :=
    .cons hbase (.cons hk .nil)
  exact (valueIn_call hname hf rfl hdepth hes rfl :)

/-! ### Maps -/

private theorem valueIn_calledWith_map (hbase : valueIn .library c base = .ok (.map entries))
    (hkey : HasKey c key a) :
    valueIn .library c (calledWith base key) = .ok (Item.valueOf entries (.ofAtomic a)) := by
  obtain ⟨k, hk, hatomize⟩ := hkey
  rw [valueIn_calledWith hbase hk, callItem, callMap, run_reading, hatomize]
  rfl

/-- One atomic value is the key that a function takes. -/
theorem keyArgument_of_atomizeOptional {k : Item} (h : k.atomizeOptional c.forest = .ok (some a)) :
    k.keyArgument c.forest = .ok (.ofAtomic a) := by
  rw [Item.keyArgument, h]
  rfl

/-- `map:get` gives the value of the key. -/
theorem valueIn_mapGet (hdepth : c.depth < c.limits.depth) (hwf : (Item.map entries).WellFormed)
    (hbase : valueIn .library c base = .ok (.map entries)) (hkey : HasKey c key a) :
    valueIn .library c (readBy ⟨some "map", "get"⟩ base key) =
      .ok (Item.valueOf entries (.ofAtomic a)) := by
  obtain ⟨k, hk, hatomize⟩ := hkey
  have hf : Registry.library.resolve? ⟨some "map", "get"⟩ =
      some (.binary "map:get" fun forest m key => do
        let entries ← m.mapArgument "map:get"
        return Item.valueOf entries (← key.keyArgument forest)) :=
    (Registry.resolve?_library_qualified (by decide) _).trans rfl
  rw [valueIn_readBy rfl hf hdepth hbase hk]
  change (do return Item.valueOf entries (← k.keyArgument c.forest)) >>= Item.toResult = _
  rw [keyArgument_of_atomizeOptional hatomize]
  exact (Item.closed_wellFormed.valueOf hwf _).toResult

private theorem valueIn_mapContains (hdepth : c.depth < c.limits.depth)
    (hbase : valueIn .library c base = .ok (.map entries)) (hkey : HasKey c key a) :
    valueIn .library c (readBy ⟨some "map", "contains"⟩ base key) =
      .ok (.boolean (decide (MapKey.ofAtomic a ∈ Table.keys entries))) := by
  obtain ⟨k, hk, hatomize⟩ := hkey
  have hf : Registry.library.resolve? ⟨some "map", "contains"⟩ =
      some (.binary "map:contains" fun forest m key => do
        let entries ← m.mapArgument "map:contains"
        return .boolean (Table.holds (← key.keyArgument forest) entries)) :=
    (Registry.resolve?_library_qualified (by decide) _).trans rfl
  rw [valueIn_readBy rfl hf hdepth hbase hk]
  change (do return .boolean (Table.holds (← k.keyArgument c.forest) entries)) >>= Item.toResult = _
  rw [keyArgument_of_atomizeOptional hatomize]
  change Except.ok (Item.boolean (Table.holds (.ofAtomic a) entries)) = _
  rw [Bool.eq_iff_iff.mpr (Table.holds_iff_mem_keys.trans decide_eq_true_iff.symm)]

/-! ### Arrays -/

private theorem valueIn_calledWith_array {i : Int64}
    (hbase : valueIn .library c base = .ok (.array members))
    (hkey : HasKey c key (.integer i)) :
    valueIn .library c (calledWith base key) = Item.memberAt members i := by
  obtain ⟨k, hk, hatomize⟩ := hkey
  rw [valueIn_calledWith hbase hk, callItem, callArray, run_reading, hatomize]
  rfl

private theorem valueIn_arrayGet {i : Int64} (hdepth : c.depth < c.limits.depth)
    (hwf : (Item.array members).WellFormed) (hbase : valueIn .library c base = .ok (.array members))
    (hkey : HasKey c key (.integer i)) :
    valueIn .library c (readBy ⟨some "array", "get"⟩ base key) = Item.memberAt members i := by
  obtain ⟨k, hk, hatomize⟩ := hkey
  obtain ⟨read, hf, hread⟩ : ∃ read,
      Registry.library.resolve? ⟨some "array", "get"⟩ = some (.binary "array:get" read) ∧
        read c.forest (.array members) k = Item.memberAt members i := by
    refine ⟨_, (Registry.resolve?_library_qualified (by decide) _).trans rfl, ?_⟩
    change (k.atomizeOptional c.forest >>= _) = _
    rw [hatomize]
    rfl
  rw [valueIn_readBy rfl hf hdepth hbase hk, hread]
  cases hmember : Item.memberAt members i with
  | error e => rfl
  | ok member =>
    exact (Item.gives_memberAt (Item.closed_wellFormed.ofArray hwf) i _ hmember).toResult

/-! ### Several keys -/

private theorem valueIn_lookedUp_sequence {keys : List Expr} {as : List Atomic}
    (hbase : valueIn .library c base = .ok value) (hkeys : List.Forall₂ (HasKey c) keys as) :
    valueIn .library c (lookedUp base (.sequence keys)) =
      value.lookup (.computed (.sequence keys)) (some as) := by
  have hvalues : ∃ values, keys.mapM (valueIn .library c) = .ok values ∧
      List.Forall₂ (fun v a => v.atomizeOptional c.forest = .ok (some a)) values as := by
    induction hkeys with
    | nil => exact ⟨[], rfl, .nil⟩
    | cons hkey _ ih =>
      obtain ⟨k, hk, hatomize⟩ := hkey
      obtain ⟨values, hmap, hvalues⟩ := ih
      exact ⟨k :: values, by rw [List.mapM_cons, hk, hmap]; rfl, .cons hatomize hvalues⟩
  obtain ⟨values, hmap, hvalues⟩ := hvalues
  rw [valueIn_lookedUp hbase, valueIn_sequence Registry.keeps_library, hmap]
  change ((Item.ofList values).atomize c.forest >>= _) = _
  rw [Item.atomize_ofList_of_single hvalues]
  rfl

/-- A lookup with several keys puts together what the lookups with each of them give. -/
theorem valueIn_lookedUp_keys {keys : List Expr} {as : List Atomic}
    (hbase : valueIn .library c base = .ok value) (hwf : value.WellFormed)
    (hcontainer : value.Container) (hkeys : List.Forall₂ (HasKey c) keys as) :
    valueIn .library c (lookedUp base (.sequence keys)) =
      (keys.mapM fun key => valueIn .library c (lookedUp base key)).map .ofList := by
  rw [valueIn_lookedUp_sequence hbase hkeys, Item.lookup_keys hwf hcontainer]
  refine congrArg (Except.map Item.ofList) ?_
  generalize LookupKey.computed (.sequence keys) = written
  induction hkeys with
  | nil => rfl
  | cons hkey _ ih =>
    rw [List.mapM_cons, List.mapM_cons, ih, valueIn_lookedUp_of_hasKey hbase hkey,
      hcontainer.lookup_congr written]

/-! ### All ways -/

/-- All ways to read a map or an array agree, for every expression that has it as its value. With one key,
a map gives the value that it holds for the key, or nothing, and it contains the keys that it holds; an
array gives the member at a position between one and its size, and is out of bounds at any other position.
A lookup with several keys puts together what the lookups with each of them give, in their order. -/
theorem access_agrees (hdepth : c.depth < c.limits.depth) (hbase : valueIn .library c base = .ok value)
    (hwf : value.WellFormed) :
    (∀ entries, value = .map entries → ∀ key a, HasKey c key a →
      ∃ found,
        (∀ w, (MapKey.ofAtomic a, w) ∈ entries → found = w) ∧
        (MapKey.ofAtomic a ∉ Table.keys entries → found = .empty) ∧
        valueIn .library c (lookedUp base key) = .ok found ∧
        valueIn .library c (calledWith base key) = .ok found ∧
        valueIn .library c (readBy ⟨some "map", "get"⟩ base key) = .ok found ∧
        valueIn .library c (readBy ⟨some "map", "contains"⟩ base key) =
          .ok (.boolean (decide (MapKey.ofAtomic a ∈ Table.keys entries)))) ∧
    (∀ members, value = .array members → ∀ key i, HasKey c key (.integer i) →
      ∃ found,
        (1 ≤ i.toInt ∧ i.toInt ≤ members.length →
          ∃ member, members[i.toInt.toNat - 1]? = some member ∧ found = .ok member) ∧
        (¬ (1 ≤ i.toInt ∧ i.toInt ≤ members.length) →
          found = .error (.indexOutOfRange i members.length)) ∧
        valueIn .library c (lookedUp base key) = found ∧
        valueIn .library c (calledWith base key) = found ∧
        valueIn .library c (readBy ⟨some "array", "get"⟩ base key) = found) ∧
    (value.Container → ∀ keys as, List.Forall₂ (HasKey c) keys as →
      valueIn .library c (lookedUp base (.sequence keys)) =
        (keys.mapM fun key => valueIn .library c (lookedUp base key)).map .ofList) := by
  refine ⟨?_, ?_, fun hcontainer _ _ => valueIn_lookedUp_keys hbase hwf hcontainer⟩
  · rintro entries rfl key a hkey
    refine ⟨Item.valueOf entries (.ofAtomic a), fun w hw => ?_, Item.valueOf_of_not_mem, ?_,
      valueIn_calledWith_map hbase hkey, valueIn_mapGet hdepth hwf hbase hkey,
      valueIn_mapContains hdepth hbase hkey⟩
    · cases hwf with
      | map hnodup _ => exact Item.valueOf_of_mem hnodup hw
    · rw [valueIn_lookedUp_of_hasKey hbase hkey, Item.lookup_map_single hwf]
  · rintro members rfl key i hkey
    refine ⟨Item.memberAt members i, fun hi => Item.memberAt_of_le hi.1 hi.2, Item.memberAt_of_not_le, ?_,
      valueIn_calledWith_array hbase hkey, valueIn_arrayGet hdepth hwf hbase hkey⟩
    rw [valueIn_lookedUp_of_hasKey hbase hkey, Item.lookup_array_single hwf]
    rfl

/-- In an array whose first member is empty, a negative position is out of bounds for all ways to read
it, and a lookup with two keys gives the only item that there is. -/
theorem access_agrees_pair :
    let base : Expr := .squareArray [.sequence [], .literal (.integer 7)]
    let members : List Item := [.empty, .integer 7]
    let first : Expr := .literal (.integer 1)
    let second : Expr := .literal (.integer 2)
    let negative : Expr := .signed .minus first
    ({} : Context).depth < ({} : Context).limits.depth ∧
    valueIn .library {} base = .ok (.array members) ∧ (Item.array members).WellFormed ∧
    (∀ read ∈ [lookedUp base negative, calledWith base negative,
        readBy ⟨some "array", "get"⟩ base negative],
      valueIn .library {} read = .error (.indexOutOfRange (-1) 2)) ∧
    valueIn .library {} (lookedUp base (.sequence [second, first])) = .ok (.integer 7) := by
  intro base members first second negative
  have hdepth : ({} : Context).depth < ({} : Context).limits.depth := by decide
  have hbase : valueIn .library {} base = .ok (.array members) := rfl
  have hwf : (Item.array members).WellFormed := by
    refine .array (List.forall_mem_cons.mpr ⟨Item.closed_wellFormed.empty, ?_⟩)
    exact List.forall_mem_singleton.mpr (.integer 7)
  obtain ⟨-, hposition, hkeys⟩ := access_agrees hdepth hbase hwf
  obtain ⟨found, -, hmissing, hlookup, hcall, hget⟩ :=
    hposition members rfl negative (-1) ⟨.integer (-1), rfl, rfl⟩
  rw [hmissing (by decide)] at hlookup hcall hget
  refine ⟨hdepth, hbase, hwf, by simp [hlookup, hcall, hget, members], ?_⟩
  rw [hkeys (.array members) [second, first] [.integer 2, .integer 1]
    (.cons ⟨_, rfl, rfl⟩ (.cons ⟨_, rfl, rfl⟩ .nil))]
  rfl

end TreeQuery.Eval
