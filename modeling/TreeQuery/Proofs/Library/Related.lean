import TreeQuery.Library
import TreeQuery.Proofs.Evaluation.Related

/-!
# The library and relations between evaluations

A congruence holds of every function of the library and itself. A function that only reads the
context is a rule for its value, and the rule gives values with a closed property for arguments that
have it. Functions that call functions put together what the calls give.
-/

namespace TreeQuery

/-- Functions of different names without the default qualifier are registered one behind the other. -/
theorem Registry.functions_foldl_register {r : Registry} {fs : List LibraryFunction}
    (hnames : ((r.functions ++ fs).map LibraryFunction.name).Nodup)
    (hdefault : ∀ f ∈ fs, withoutDefault f.name = f.name) :
    (fs.foldl register r).functions = r.functions ++ fs := by
  induction fs generalizing r with
  | nil => rw [List.foldl_nil, List.append_nil]
  | cons f fs ih =>
    obtain ⟨hf, hfs⟩ := List.forall_mem_cons.mp hdefault
    have hnew : (r.register f).functions = r.functions ++ [f] := by
      have hne : ∀ g ∈ r.functions, (g.name != f.name) = true := by
        intro g hg
        rw [List.map_append, List.nodup_append] at hnames
        exact bne_iff_ne.mpr (hnames.2.2 _ (List.mem_map_of_mem hg) _ (List.mem_map_of_mem List.mem_cons_self))
      rw [register, hf, List.filter_eq_self.mpr hne]
    rw [List.foldl_cons, ih _ hfs, hnew, List.append_assoc, List.singleton_append]
    rwa [hnew, List.append_assoc, List.singleton_append]

/-- Registering the functions of the library one by one replaces none of them. -/
theorem Registry.functions_library : library.functions = Library.functions := by
  refine functions_foldl_register ?_ ?_
  · decide +kernel
  · decide +kernel

/-- What is read off a value that cannot be wrong. -/
theorem Gives.read {α : Type} {W : Item → Prop} {r : Except EvalError α} {f : α → Item}
    (h : ∀ a, W (f a)) : Gives W (do return f (← r)) := .bind_any fun a => .ok (h a)

variable {ι : Type} {W : Item → Prop} {below : ι → ι → Prop} {R S : EvalRelation ι} {i : ι}

namespace LibraryFunction

variable {name : String} (hR : Eval.Congruence W below R S)

include hR

private theorem related_constant {f : Context → Except EvalError Item} (hf : ∀ c, f c.bare = f c)
    (h : ∀ c, c.FocusHas W → Gives W (f c)) : (constant name f).Related W R i := by
  intro _ _ _ args _
  refine hR.reading (fun c => ?_) fun c hc => ?_
  · cases args with
    | nil => exact hf c
    | cons => rfl
  · split
    · exact h c hc
    · exact .error _

private theorem related_forest {least most : Nat} {f : Forest → List Item → Except EvalError Item}
    (h : ∀ forest args, AllHave W args → Gives W (f forest args)) :
    Related W R i { name, least, most, run := fun _ args => .reading fun c => f c.forest args } :=
  fun _ _ _ args hargs => hR.reading (fun _ => rfl) fun c _ => h c.forest args hargs

private theorem related_unary {f : Forest → Item → Except EvalError Item}
    (h : ∀ forest x, W x → Gives W (f forest x)) : (unary name f).Related W R i := by
  refine fun _ _ _ args hargs => hR.reading (fun _ => rfl) fun c _ => ?_
  split
  · simp only [allHave_cons] at hargs
    exact h _ _ hargs.1
  · exact .error _

private theorem related_onContext {f : Forest → Item → Except EvalError Item}
    (h : ∀ forest x, W x → Gives W (f forest x)) : (onContext name f).Related W R i := by
  refine fun _ _ _ args hargs => hR.reading (fun _ => rfl) fun c hc => ?_
  split
  · exact hc.gives_contextItem.bind fun x hx => h _ x hx
  · simp only [allHave_cons] at hargs
    exact h _ _ hargs.1
  · exact .error _

private theorem related_binary {f : Forest → Item → Item → Except EvalError Item}
    (h : ∀ forest x y, W x → W y → Gives W (f forest x y)) : (binary name f).Related W R i := by
  refine fun _ _ _ args hargs => hR.reading (fun _ => rfl) fun c _ => ?_
  split
  · simp only [allHave_cons] at hargs
    exact h _ _ _ hargs.1 hargs.2.1
  · exact .error _

private theorem related_unaryOptional {f : Forest → Item → Option Item → Except EvalError Item}
    (h : ∀ forest x y, W x → (∀ v, y = some v → W v) → Gives W (f forest x y)) :
    (unaryOptional name f).Related W R i := by
  refine fun _ _ _ args hargs => hR.reading (fun _ => rfl) fun c _ => ?_
  split
  · simp only [allHave_cons] at hargs
    exact h _ _ _ hargs.1 (by simp)
  · simp only [allHave_cons] at hargs
    exact h _ _ _ hargs.1 fun v hv => Option.some.inj hv ▸ hargs.2.1
  · exact .error _

private theorem related_binaryOptional {f : Forest → Item → Item → Option Item → Except EvalError Item}
    (h : ∀ forest x y z, W x → Gives W (f forest x y z)) :
    (binaryOptional name f).Related W R i := by
  refine fun _ _ _ args hargs => hR.reading (fun _ => rfl) fun c _ => ?_
  split
  · simp only [allHave_cons] at hargs
    exact h _ _ _ _ hargs.1
  · simp only [allHave_cons] at hargs
    exact h _ _ _ _ hargs.1
  · exact .error _

private theorem related_ternary {f : Forest → Item → Item → Item → Except EvalError Item}
    (h : ∀ forest x y z, W x → W z → Gives W (f forest x y z)) :
    (ternary name f).Related W R i := by
  refine fun _ _ _ args hargs => hR.reading (fun _ => rfl) fun c _ => ?_
  split
  · simp only [allHave_cons] at hargs
    exact h _ _ _ _ hargs.1 hargs.2.2.1
  · exact .error _

end LibraryFunction

namespace Library

open LibraryFunction

/-! ### Values of functions -/

private theorem closed_ofAtomics (hW : Item.Closed W) (atoms : List Atomic) :
    W (.ofList (atoms.map .ofAtomic)) := hW.ofList (allHave_map hW.ofAtomic atoms)

private theorem allHave_between {items : List Item} (h : AllHave W items) (start stop : Float) :
    AllHave W (between start stop items) := by
  intro v hv
  obtain ⟨⟨x, position⟩, hmem, hx⟩ := List.mem_filterMap.mp hv
  dsimp only at hx
  split at hx
  · obtain rfl := Option.some.inj hx
    exact h x (List.fst_mem_of_mem_zipIdx hmem)
  · contradiction

private theorem gives_extremeFrom (hW : Item.Closed W) (function : String) (direction : Ordering)
    (best : Option Atomic) (atoms : List Atomic) :
    Gives W (extremeFrom function direction best atoms) := by
  induction atoms generalizing best with
  | nil =>
    refine .ok ?_
    cases best with
    | none => exact hW.empty
    | some a => exact hW.ofAtomic a
  | cons a as ih =>
    simp only [extremeFrom]
    split
    · exact .ok (hW.double _)
    · cases best with
      | none => exact ih _
      | some b =>
        dsimp only
        split
        · exact .error _
        · exact ih _

/-- Raising an error never gives a value. -/
theorem gives_raised {P : Item → Prop} (forest : Forest) (args : List Item) :
    Gives P (raised forest args) := by
  have htext (code : String) (text : Except EvalError String) :
      Gives P (do let text ← text; .error (.user code text)) := .bind_any fun _ => .error _
  unfold raised
  dsimp only
  split
  · split
    all_goals
      refine .bind_any fun code => ?_
      split <;> exact htext code _
  · refine .bind_any fun code => ?_
    split <;> exact htext code _

private theorem gives_mapArgument {function : String} {m : Item} (h : W m) :
    Gives (fun entries => W (.map entries)) (m.mapArgument function) := by
  cases m with
  | map entries => exact .ok h
  | _ => exact .error _

private theorem gives_arrayArgument (hW : Item.Closed W) {function : String} {a : Item} (h : W a) :
    Gives (AllHave W) (a.arrayArgument function) := by
  cases a with
  | array members => exact .ok (hW.ofArray h)
  | _ => exact .error _

/-! ### Functions -/

section

variable (hR : Eval.Congruence W below R S)

include hR

private theorem related_truths : ∀ f ∈ truths, f.Related W R i := by
  have hboolean := hR.closed.boolean
  simp only [truths, List.forall_mem_cons]
  refine ⟨related_constant hR (fun _ => rfl) fun _ _ => .ok (hboolean _),
    related_constant hR (fun _ => rfl) fun _ _ => .ok (hboolean _),
    related_unary hR fun _ _ _ => .read fun _ => hboolean _,
    related_unary hR fun _ _ _ => .read fun _ => hboolean _, ?_⟩
  exact fun _ h => absurd h List.not_mem_nil

private theorem related_sequences : ∀ f ∈ sequences, f.Related W R i := by
  have hW := hR.closed
  simp only [sequences, List.forall_mem_cons]
  refine ⟨?count, ?empty, ?nonempty, ?head, ?tail, ?reverse, ?distinct, ?subsequence, ?indexOf, ?_⟩
  case count => exact related_unary hR fun _ _ _ => .ok (hW.integer _)
  case empty => exact related_unary hR fun _ _ _ => .ok (hW.boolean _)
  case nonempty => exact related_unary hR fun _ _ _ => .ok (hW.boolean _)
  case head =>
    refine related_unary hR fun _ x hx => .ok ?_
    cases hitems : x.items with
    | nil => exact hW.empty
    | cons item items => exact hW.items hx item (hitems ▸ List.mem_cons_self)
  case tail =>
    exact related_unary hR fun _ x hx => .ok
      (hW.ofList fun v hv => hW.items hx v (List.mem_of_mem_tail hv))
  case reverse =>
    exact related_unary hR fun _ x hx => .ok
      (hW.ofList fun v hv => hW.items hx v (List.mem_reverse.mp hv))
  case distinct => exact related_unary hR fun _ _ _ => .read fun _ => closed_ofAtomics hW _
  case subsequence =>
    exact related_binaryOptional hR fun _ x _ _ hx => .bind_any fun _ => .ok
      (hW.ofList (allHave_between (hW.items hx) _ _))
  case indexOf =>
    refine related_binary hR fun _ x _ _ _ => .bind_any fun target => ?_
    split
    · exact .error _
    · exact .read fun _ => hW.ofList (allHave_map (fun n => hW.integer (Int64.ofNat n)) _)
  exact fun _ h => absurd h List.not_mem_nil

private theorem related_texts : ∀ f ∈ texts, f.Related W R i := by
  have hstring := hR.closed.string
  have htest (name : String) (test : List Char → List Char → Bool) :
      (textTest name test).Related W R i :=
    related_binary hR fun _ _ _ _ _ => .bind_any fun _ => .read fun _ => hR.closed.boolean _
  have hside (name : String) (side : List Char × List Char → List Char) :
      (textSide name side).Related W R i :=
    related_binary hR fun _ _ _ _ _ => .bind_any fun _ => .read fun _ => hstring _
  simp only [texts, List.forall_mem_cons]
  refine ⟨?string, ?concat, ?length, ?normalize, htest _ _, htest _ _, htest _ _, hside _ _,
    hside _ _, ?upper, ?lower, ?join, ?substring, ?_⟩
  case string => exact related_onContext hR fun _ _ _ => .read fun _ => hstring _
  case concat => exact related_forest hR fun _ _ _ => .read fun _ => hstring _
  case length => exact related_onContext hR fun _ _ _ => .read fun _ => hR.closed.integer _
  case normalize => exact related_onContext hR fun _ _ _ => .read fun _ => hstring _
  case upper => exact related_unary hR fun _ _ _ => .read fun _ => hstring _
  case lower => exact related_unary hR fun _ _ _ => .read fun _ => hstring _
  case join =>
    exact related_unaryOptional hR fun _ _ _ _ _ => .bind_any fun _ => .read fun _ => hstring _
  case substring =>
    exact related_binaryOptional hR fun _ _ _ _ _ => .bind_any fun _ => .bind_any fun _ =>
      .ok (hstring _)
  exact fun _ h => absurd h List.not_mem_nil

private theorem related_extreme (function : String) (direction : Ordering) :
    (extreme function direction).Related W R i :=
  related_unary hR fun _ _ _ => .bind_any fun _ => gives_extremeFrom hR.closed _ _ _ _

private theorem related_onNumber (function : String) (onInteger : Int64 → Option Int64)
    (onDecimal : Decimal → Option Decimal) (onDouble : Float → Float) :
    (onNumber function onInteger onDecimal onDouble).Related W R i := by
  refine related_unary hR fun _ _ _ => .bind_any fun x => ?_
  split
  · exact .ok hR.closed.empty
  · exact .read fun _ => hR.closed.integer _
  · exact .read fun _ => hR.closed.decimal _
  · exact .ok (hR.closed.double _)

private theorem related_numbers : ∀ f ∈ numbers, f.Related W R i := by
  have hW := hR.closed
  simp only [numbers, List.forall_mem_cons]
  refine ⟨?number, ?sum, ?avg, related_extreme hR _ _, related_extreme hR _ _,
    related_onNumber hR _ _ _ _, related_onNumber hR _ _ _ _, related_onNumber hR _ _ _ _,
    related_onNumber hR _ _ _ _, ?sqrt, ?pi, ?_⟩
  case number => exact related_onContext hR fun _ _ _ => .read fun _ => hW.double _
  case sum =>
    refine related_unaryOptional hR fun _ _ zero _ hzero => .bind_any fun _ => .bind_any fun a => ?_
    split
    · exact .ok (hW.ofAtomic _)
    · cases zero with
      | none => exact .ok (hW.integer _)
      | some v => exact .ok (hzero v rfl)
  case avg =>
    refine related_unary hR fun _ _ _ => .bind_any fun _ => .bind_any fun a => ?_
    split
    · exact .read fun a => hW.ofAtomic a
    · exact .ok hW.empty
  case sqrt =>
    refine related_unary hR fun _ x _ => ?_
    split
    · exact .ok hW.empty
    · exact .read fun _ => hW.double _
  case pi => exact related_constant hR (fun _ => rfl) fun _ _ => .ok (hW.double _)
  exact fun _ h => absurd h List.not_mem_nil

private theorem related_nodes : ∀ f ∈ nodes, f.Related W R i := by
  have hW := hR.closed
  have hname (function : String) (f : QName → String) : (onName function f).Related W R i :=
    related_onContext hR fun _ _ _ => .read fun _ => hW.string _
  simp only [nodes, List.forall_mem_cons]
  refine ⟨?position, ?last, hname _ _, hname _ _, ?data, ?root, ?error, ?_⟩
  case position =>
    exact related_constant hR (fun _ => rfl) fun _ _ => .read fun _ => hW.integer _
  case last => exact related_constant hR (fun _ => rfl) fun _ _ => .read fun _ => hW.integer _
  case data => exact related_onContext hR fun _ _ _ => .read fun _ => closed_ofAtomics hW _
  case root =>
    refine related_onContext hR fun _ _ _ => .read fun n => ?_
    cases n with
    | none => exact hW.empty
    | some n => exact hW.node _
  case error => exact related_forest hR fun _ _ _ => gives_raised _ _
  exact fun _ h => absurd h List.not_mem_nil

private theorem related_collections : ∀ f ∈ collections, f.Related W R i := by
  have hW := hR.closed
  simp only [collections, List.forall_mem_cons]
  refine ⟨?mapSize, ?mapKeys, ?mapGet, ?mapContains, ?mapPut, ?arraySize, ?arrayGet, ?arrayAppend,
    ?_⟩
  case mapSize => exact related_unary hR fun _ _ _ => .read fun _ => hW.integer _
  case mapKeys =>
    exact related_unary hR fun _ _ _ => .read fun _ =>
      hW.ofList (allHave_map (fun _ => hW.ofAtomic _) _)
  case mapGet =>
    exact related_binary hR fun _ _ _ hm _ => (gives_mapArgument hm).bind fun _ h =>
      .read fun _ => hW.valueOf h _
  case mapContains =>
    exact related_binary hR fun _ _ _ _ _ => .bind_any fun _ => .read fun _ => hW.boolean _
  case mapPut =>
    exact related_ternary hR fun _ _ _ _ hm hvalue => (gives_mapArgument hm).bind fun t h =>
      .read fun key => hW.put key h hvalue
  case arraySize => exact related_unary hR fun _ _ _ => .read fun _ => hW.integer _
  case arrayGet =>
    refine related_binary hR fun _ _ _ ha _ => (gives_arrayArgument hW ha).bind fun _ h =>
      .bind_any fun position => ?_
    split
    · exact Item.gives_memberAt h _
    · exact .error _
  case arrayAppend =>
    exact related_binary hR fun _ _ _ ha hmember => (gives_arrayArgument hW ha).bind fun _ h =>
      .ok (hW.array (h.append (allHave_cons.mpr ⟨hmember, allHave_nil⟩)))
  exact fun _ h => absurd h List.not_mem_nil

/-! ### Functions that call functions -/

variable {call₁ call₂ : Caller}
  (hc : ∀ g args, W g → AllHave W args → R i W (call₁ g args) (call₂ g args))

include hc

private theorem related_forEach {items : List Item} {f : Item} (hitems : AllHave W items) (hf : W f) :
    R i W (forEach call₁ items f) (forEach call₂ items f) := by
  refine hR.bind (hR.mapM (Q := W) fun x hx => ?_) fun found h => hR.pure (hR.closed.ofList h)
  exact hc f [x] hf (allHave_cons.mpr ⟨hitems x hx, allHave_nil⟩)

private theorem related_filter {items : List Item} {f : Item} (hitems : AllHave W items) (hf : W f) :
    R i W (filter call₁ items f) (filter call₂ items f) := by
  refine hR.bind (hR.filterM hitems fun x hx => ?_) fun kept h => hR.pure (hR.closed.ofList h)
  refine hR.bind (hc f [x] hf (allHave_cons.mpr ⟨hitems x hx, allHave_nil⟩)) fun value _ => ?_
  cases value <;> first | exact hR.pure trivial | exact hR.throw _

private theorem related_foldLeft {items : List Item} {start f : Item} (hitems : AllHave W items)
    (hstart : W start) (hf : W f) :
    R i W (foldLeft call₁ items start f) (foldLeft call₂ items start f) :=
  hR.foldlM hstart fun _ hvalue x hx =>
    hc f _ hf (allHave_cons.mpr ⟨hvalue, allHave_cons.mpr ⟨hitems x hx, allHave_nil⟩⟩)

private theorem related_foldRight {items : List Item} {start f : Item} (hitems : AllHave W items)
    (hstart : W start) (hf : W f) :
    R i W (foldRight call₁ items start f) (foldRight call₂ items start f) :=
  hR.foldlM hstart fun _ hvalue x hx => hc f _ hf <|
    allHave_cons.mpr ⟨hitems x (List.mem_reverse.mp hx), allHave_cons.mpr ⟨hvalue, allHave_nil⟩⟩

omit hc

private theorem related_higherOrder : ∀ f ∈ higherOrder, f.Related W R i := by
  simp only [higherOrder, List.forall_mem_cons]
  refine ⟨?forEach, ?filter, ?foldLeft, ?foldRight, fun _ h => absurd h List.not_mem_nil⟩
  case forEach =>
    intro call₁ call₂ hc args hargs
    simp only [calling]
    split
    · simp only [allHave_cons] at hargs
      exact related_forEach hR hc (hR.closed.items hargs.1) hargs.2.1
    · exact hR.throw _
  case filter =>
    intro call₁ call₂ hc args hargs
    simp only [calling]
    split
    · simp only [allHave_cons] at hargs
      exact related_filter hR hc (hR.closed.items hargs.1) hargs.2.1
    · exact hR.throw _
  case foldLeft =>
    intro call₁ call₂ hc args hargs
    simp only [calling]
    split
    · simp only [allHave_cons] at hargs
      exact related_foldLeft hR hc (hR.closed.items hargs.1) hargs.2.1 hargs.2.2.1
    · exact hR.throw _
  case foldRight =>
    intro call₁ call₂ hc args hargs
    simp only [calling]
    split
    · simp only [allHave_cons] at hargs
      exact related_foldRight hR hc (hR.closed.items hargs.1) hargs.2.1 hargs.2.2.1
    · exact hR.throw _

private theorem related_functions : ∀ f ∈ functions, f.Related W R i := by
  intro f hf
  simp only [functions, List.mem_append] at hf
  rcases hf with (((((hf | hf) | hf) | hf) | hf) | hf) | hf
  · exact related_truths hR f hf
  · exact related_sequences hR f hf
  · exact related_texts hR f hf
  · exact related_numbers hR f hf
  · exact related_nodes hR f hf
  · exact related_higherOrder hR f hf
  · exact related_collections hR f hf

end

end Library

/-- Every function of the library is related to itself by the relations that evaluation respects. -/
theorem Registry.related_library (hR : Eval.Congruence W below R S) :
    ∀ f ∈ library.functions, f.Related W R i := by
  rw [functions_library]
  exact Library.related_functions hR

end TreeQuery
