import TreeQuery.Proofs.Evaluation.Bindings
import TreeQuery.Proofs.Item.Data
import TreeQuery.Proofs.Parser.Precedence
import TreeQuery.Proofs.Parser.RoundTrip

/-!
# Reading plain data back

Plain data is shown as a text that is read as its expression. Unlike canonical text it has no
parentheses around a sign and always some around a sequence, so `Spells` says of a text by itself how
it is read among commas, brackets and colons: no deeper than in so many levels, and with no comma
outside of its brackets, by which a sequence is told from a group.
-/

namespace TreeQuery

open TreeQuery.Parser

/-! ### The text of plain data -/

/-- Texts with commas between them. -/
def betweenCommas {ι : Type} (text : ι → List Char) : List ι → List Char
  | [] => []
  | i :: is => text i ++ afterCommas text is

/-- What stands in the braces of a map: nothing, or entries with a blank on each side. -/
def betweenBraces {ι : Type} (text : ι → List Char) : List ι → List Char
  | [] => []
  | i :: is => ' ' :: (betweenCommas text (i :: is) ++ [' '])

/-- A negative integer has a sign in front of the digits of its opposite. -/
theorem Integer.toList_render_negative {i : Int64} (h : Int64.minValue < i) (hi : ¬ 0 ≤ i.toInt) :
    (Integer.render i).toList = '-' :: (Integer.render (-i)).toList := by
  obtain ⟨n, hn⟩ : ∃ n : Nat, i.toInt = Int.negSucc n :=
    Int.eq_negSucc_of_lt_zero (Int.not_le.mp hi)
  rw [Integer.render, Integer.render, Integer.toInt_neg h, hn]
  change ("-" ++ toString (n + 1)).toList = '-' :: (toString (n + 1)).toList
  rw [String.toList_append]
  rfl

namespace Item

variable (forest : Forest)

/-- The text of an entry of a map. -/
def entryText (entry : MapKey × Item) : List Char :=
  entry.1.render.toList ++ ':' :: ' ' :: (entry.2.render forest).toList

private theorem toList_renderAll_some (before : String) (items : List Item) :
    (renderAll forest (some before) items).toList =
      before.toList ++ afterCommas (fun i => (i.render forest).toList) items := by
  induction items generalizing before with
  | nil => simp [renderAll, afterCommas]
  | cons i items ih =>
    rw [renderAll, listed, ih]
    simp [afterCommas]

private theorem toList_renderAll (items : List Item) :
    (renderAll forest none items).toList =
      betweenCommas (fun i => (i.render forest).toList) items := by
  cases items with
  | nil =>
    rw [renderAll]
    rfl
  | cons i items =>
    rw [renderAll, listed, toList_renderAll_some]
    rfl

private theorem toList_renderEntries_some (before : String) (entries : Table Item) :
    (renderEntries forest (some before) entries).toList =
      before.toList ++ afterCommas (entryText forest) entries := by
  induction entries generalizing before with
  | nil => simp [renderEntries, afterCommas]
  | cons entry entries ih =>
    rw [renderEntries, listed, ih]
    simp [afterCommas, entryText]

private theorem toList_render_sequence (items : List Item) :
    (render forest (.sequence items)).toList =
      '(' :: (betweenCommas (fun i => (i.render forest).toList) items ++ [')']) := by
  simp [render, toList_renderAll]

private theorem toList_render_array (members : List Item) :
    (render forest (.array members)).toList =
      '[' :: (betweenCommas (fun i => (i.render forest).toList) members ++ [']']) := by
  simp [render, toList_renderAll]

private theorem toList_render_map (entries : Table Item) :
    (render forest (.map entries)).toList =
      "map".toList ++ ' ' :: '\x7b' :: (betweenBraces (entryText forest) entries ++ ['\x7d']) := by
  cases entries with
  | nil => simp [render, betweenBraces]
  | cons entry entries =>
    rw [render]
    · simp [renderEntries, listed, toList_renderEntries_some, betweenBraces, betweenCommas, entryText]
    · exact List.cons_ne_nil _ _

end Item

end TreeQuery

namespace TreeQuery.Parser

variable {levels : Nat} {e : Expr} {cs rest after : List Char}

/-! ### Texts of operands -/

/-- What may stand behind an operand that no operator follows. -/
structure Ends (rest : List Char) : Prop where
  names : NameEnds rest
  kind : nextKind rest ∈ [.rightParen, .rightBracket, .rightBrace, .comma, .colon, .eof]

private theorem ends_comma (cs : List Char) : Ends (',' :: cs) := by
  refine ⟨nameEnds_of_kind (by simp) cs, ?_⟩
  rw [(starts_mark (c := ',') rfl cs).kind]
  decide

private theorem ends_rightParen (cs : List Char) :
    Ends (')' :: cs) := ⟨nameEnds_rightParen cs, kind_rightParen cs⟩

private theorem ends_rightBracket (cs : List Char) : Ends (']' :: cs) := by
  refine ⟨nameEnds_of_kind (by simp) cs, ?_⟩
  rw [(starts_mark (c := ']') rfl cs).kind]
  decide

private theorem ends_rightBrace (cs : List Char) : Ends (' ' :: '\x7d' :: cs) := by
  refine ⟨nameEnds_blank _, ?_⟩
  rw [nextKind_rightBrace]
  decide

private theorem ends_colon (cs : List Char) : Ends (':' :: ' ' :: cs) := by
  refine ⟨nameEnds_colon cs, ?_⟩
  rw [show nextKind (':' :: ' ' :: cs) = .colon from rfl]
  decide

private theorem ends_nil : Ends [] := ⟨⟨breaks_nil, nofun⟩, by decide⟩

/-- A text that is read as this expression, with so many levels for it and what is inside. -/
structure Spells (levels : Nat) (e : Expr) (cs : List Char) : Prop where
  begins : ∀ rest, Ends rest → Begins (cs ++ rest)
  closes : Closes cs
  reads : ∀ rest, Ends rest → Reads True (single (operandAt levels)) (cs ++ rest) e rest

/-- A text that is read up to its end before any operator is looked for. -/
theorem spells_of_primary (hbegins : ∀ rest, Ends rest → Begins (cs ++ rest)) (hcloses : Closes cs)
    (h : ∀ rest, Ends rest →
      Reads True (primary (operandAt levels) levels) (cs ++ rest) e rest) :
    Spells (levels + 1) e cs := by
  refine ⟨hbegins, hcloses, fun rest hrest => ?_⟩
  have hstop : Reads True (climb (operandAt levels) levels .comma e) rest e rest :=
    reads_climb_stop (stops_of_kind hrest.kind)
  exact (reads_operandAt (h rest hrest) hstop).congr (and_self_iff)

/-- Canonical texts are read as what they are reread as. -/
theorem spells_of_legible (h : e.Legible) (htidy : e.Tidy) (hlevels : e.levels ≤ levels) :
    Spells levels e.reread e.text where
  begins _ hrest := h.begins _ hrest.names
  closes := htidy.closes
  reads _ hrest := (reads_single h.opens hrest.names hrest.kind levels).congr (iff_true_intro hlevels)

/-! ### Integers, strings and booleans -/

private theorem spells_string (s : String) (hlevels : 1 ≤ levels) :
    Spells levels (.literal (.string s)) (Text.quoted s).toList :=
  spells_of_legible (legible_string s) (Expr.tidy_literal trivial) hlevels

private theorem spells_boolean (b : Bool) (hlevels : 1 ≤ levels) :
    Spells levels (.call (.simple (renderBoolean b)) []) (renderBoolean b ++ "()").toList := by
  have hname : (QName.simple (renderBoolean b)).WellFormed := ⟨by cases b <;> decide, nofun⟩
  have hreserved : ¬ (QName.simple (renderBoolean b)).IsReserved := by
    rw [QName.IsReserved]
    cases b <;> decide
  have htext : (Expr.call (.simple (renderBoolean b)) []).text = (renderBoolean b ++ "()").toList := by
    have hcall := Expr.text_call [] (.simple (renderBoolean b)) []
    rw [List.append_nil] at hcall
    rw [hcall, String.toList_append]
    rfl
  have hlegible : (Expr.call (.simple (renderBoolean b)) []).Legible :=
    legible_call ⟨hname, hreserved⟩ (List.forall_mem_nil _)
  have hspells := spells_of_legible hlegible (Expr.tidy_call hname (List.forall_mem_nil _)) hlevels
  rwa [htext] at hspells

/-- A sign and the digits behind it take a level each. -/
theorem spells_integer {i : Int64} (h : Int64.minValue < i) (hlevels : 2 ≤ levels) :
    Spells levels (Integer.source i) (Integer.render i).toList := by
  rw [Integer.source]
  split
  · next hi =>
    have hone : 1 ≤ levels := by omega
    exact spells_of_legible (legible_integer hi) (Expr.tidy_literal hi) hone
  · next hi =>
    have hopposite : 0 ≤ (-i).toInt := by
      rw [Integer.toInt_neg h]
      omega
    obtain ⟨levels, rfl⟩ : ∃ n, levels = n + 1 + 1 := ⟨levels - 2, by omega⟩
    rw [Integer.toList_render_negative h hi]
    refine spells_of_primary (fun rest _ => begins_sign .minus _) ?_ fun rest hrest => ?_
    · exact @Closes.ordinaries_append ['-'] _ (by decide)
        (closes_ordinaries (ordinary_renderInteger hopposite))
    · have hdigits := reads_opens (legible_integer hopposite).opens
        (admits_of_kind _ (show Precedence.unary.rank < _ by decide) hrest.names hrest.kind)
        (stops_of_kind hrest.kind) (levels + 1)
      exact reads_signed .minus (hdigits.congr (iff_true_intro (Nat.le_add_left 1 levels)))

/-! ### Among commas -/

private theorem ends_element {ι : Type} {is : List ι} {i : ι} (hends : EndsElement is i after rest)
    (hafter : Ends after) : Ends rest := by
  rcases hends with ⟨rfl, -⟩ | hhead
  · exact hafter
  · cases rest with
    | nil => contradiction
    | cons c cs =>
      rw [Option.some.inj hhead]
      exact ends_comma cs

variable {ι : Type} {text : ι → List Char} {value : ι → Expr} {i : ι} {is : List ι}

private theorem ends_afterCommas (hafter : Ends after) : Ends (afterCommas text is ++ after) := by
  cases is with
  | nil => exact hafter
  | cons _ _ => exact ends_comma _

/-- Operands with commas between them. -/
theorem reads_spelled (h : ∀ j ∈ i :: is, Spells levels (value j) (text j)) (hafter : Ends after)
    (hcomma : nextKind after ≠ .comma) :
    Reads True (commaList (single (operandAt levels)))
      (text i ++ (afterCommas text is ++ after)) ((i :: is).map value) after := by
  rw [← List.append_assoc]
  have hlist : Reads (∀ j ∈ i :: is, True) (commaList (single (operandAt levels)))
      (text i ++ afterCommas text is ++ after) ((i :: is).map value) after :=
    reads_commaList (persists_operandAt levels _) hcomma
      fun j hj rest hends => (h j hj).reads rest (ends_element hends hafter)
  exact hlist.congr (iff_true_intro fun _ _ => trivial)

private theorem closesInside_between (h : ∀ j ∈ is, ClosesInside (text j)) :
    ClosesInside (betweenCommas text is) := by
  cases is with
  | nil => exact fun _ _ _ => rfl
  | cons i is =>
    intro depth rest hrest
    rw [betweenCommas, List.append_assoc, Expr.commaAhead_list h hrest]

/-! ### Brackets -/

/-- Two operands or more in parentheses, or none, are a sequence. -/
theorem spells_sequence (hlength : is.length ≠ 1) (hflat : ∀ j ∈ is, ¬ (value j).IsSequence)
    (h : ∀ j ∈ is, Spells levels (value j) (text j)) :
    Spells (levels + 1) (.sequence (is.map value)) ('(' :: (betweenCommas text is ++ [')'])) := by
  have hinside : ClosesInside (betweenCommas text is) :=
    closesInside_between fun j hj => (h j hj).closes.inside
  match is, hlength, hflat, h, hinside with
  | [], _, _, _, hinside =>
    have hhead (rest : List Char) : (')' :: rest).head? ≠ some ':' := by simp
    exact spells_of_primary (fun rest _ => begins_parenthesis (hhead rest))
      (Closes.brackets rfl rfl (Or.inr (hhead [])) (breaks_cons (by decide) []) hinside)
      fun rest _ => reads_primary_group (hhead rest) reads_group_empty
  | i :: j :: js, _, hflat, h, hinside =>
    have hbegins (rest : List Char) :
        Begins (text i ++ (afterCommas text (j :: js) ++ ')' :: rest)) :=
      (h i List.mem_cons_self).begins _ (ends_comma _)
    have hcomma (rest : List Char) :
        hasOwnComma (text i ++ (afterCommas text (j :: js) ++ rest)) = true := by
      have hfirst : afterCommas text (j :: js) ++ rest =
          ',' :: ' ' :: (text j ++ (afterCommas text js ++ rest)) := by
        simp [afterCommas]
      rw [hasOwnComma, hfirst, (h i List.mem_cons_self).closes _ _ (breaks_cons (by decide) _),
        commaAhead_cons (Or.inl (by decide))]
      rfl
    have htext (rest : List Char) : '(' :: (betweenCommas text (i :: j :: js) ++ [')']) ++ rest =
        '(' :: (text i ++ (afterCommas text (j :: js) ++ ')' :: rest)) := by
      simp [betweenCommas]
    have hmembers : Expr.ofMembers ((i :: j :: js).map value) =
        .sequence ((i :: j :: js).map value) := by
      refine Expr.ofMembers_eq (fun m hm => ?_) (by simp)
      obtain ⟨k, hk, rfl⟩ := List.mem_map.mp hm
      exact hflat k hk
    refine spells_of_primary (fun rest _ => ?_) ?_ fun rest _ => ?_
    · rw [htext]
      exact begins_parenthesis (hbegins rest).head
    · refine Closes.brackets rfl rfl (Or.inr ?_) (breaks_cons (by decide) []) hinside
      rw [betweenCommas, List.append_assoc]
      exact (hbegins []).head
    · rw [htext, ← hmembers]
      refine reads_primary_group (hbegins rest).head (reads_group_list (hbegins rest) (hcomma _) ?_)
      exact reads_spelled h (ends_rightParen rest)
        ((starts_mark (c := ')') rfl rest).kind.trans_ne (by decide))

/-- Operands in brackets are the members of an array. -/
theorem spells_squareArray (h : ∀ j ∈ is, Spells levels (value j) (text j)) :
    Spells (levels + 1) (.squareArray (is.map value))
      ('[' :: (betweenCommas text is ++ [']'])) := by
  have htext (rest : List Char) : '[' :: (betweenCommas text is ++ [']']) ++ rest =
      '[' :: (betweenCommas text is ++ ']' :: rest) := by
    simp
  have hopen (cs : List Char) : Starts ('[' :: cs) .leftBracket "[" cs := starts_mark rfl cs
  refine spells_of_primary (fun rest _ => ?_) ?_ fun rest _ => ?_
  · rw [htext]
    exact begins_of_starts (hopen _) (by simp) (by decide)
  · exact Closes.brackets rfl rfl (Or.inl (by decide)) (breaks_cons (by decide) [])
      (closesInside_between fun j hj => (h j hj).closes.inside)
  · have hclose : Starts (']' :: rest) .rightBracket "]" rest := starts_mark rfl rest
    rw [htext]
    refine reads_current fun t hkind _ => ?_
    rw [hkind, (hopen _).kind]
    refine reads_advance fun _ _ _ => ?_
    rw [(hopen _).rest]
    cases is with
    | nil => exact (reads_eat hclose).then reads_pure
    | cons i is =>
      have hends : Ends (afterCommas text is ++ ']' :: rest) := ends_afterCommas (ends_rightBracket rest)
      have hbegins := (h i List.mem_cons_self).begins _ hends
      rw [betweenCommas, List.append_assoc]
      refine (reads_eat_of_ne (hbegins.ne (by decide))).then ?_
      refine (reads_spelled h (ends_rightBracket rest) (hclose.kind.trans_ne (by decide))).then ?_
      exact (reads_expect hclose _).then reads_pure

/-! ### Maps -/

variable {key : ι → Expr} {keyText : ι → List Char}

/-- The text of an entry with this key and this value. -/
def entryOf (keyText text : ι → List Char) (i : ι) : List Char := keyText i ++ ':' :: ' ' :: text i

private theorem closes_entryOf (hkey : Spells levels (key i) (keyText i))
    (hvalue : Spells levels (value i) (text i)) : Closes (entryOf keyText text i) := by
  intro depth rest hrest
  rw [entryOf, List.append_assoc, List.cons_append, List.cons_append,
    hkey.closes _ _ (breaks_cons (by decide) _), commaAhead_ordinary (by decide),
    commaAhead_ordinary (by decide), hvalue.closes _ _ hrest]

private theorem closesInside_braces (h : ∀ j ∈ is, ClosesInside (text j)) :
    ClosesInside (betweenBraces text is) := by
  cases is with
  | nil => exact fun _ _ _ => rfl
  | cons i is =>
    intro depth rest _
    rw [betweenBraces, List.cons_append, List.append_assoc, List.singleton_append,
      commaAhead_ordinary (by decide), closesInside_between h _ _ (breaks_cons (by decide) _),
      commaAhead_ordinary (by decide)]

private theorem reads_entryOf (hkey : Spells levels (key i) (keyText i))
    (hvalue : Spells levels (value i) (text i)) (hrest : Ends rest) :
    Reads True (entry (operandAt levels)) (entryOf keyText text i ++ rest) ⟨key i, value i⟩ rest := by
  have hcolon : Starts (':' :: ' ' :: (text i ++ rest)) .colon ":" (' ' :: (text i ++ rest)) :=
    ⟨rfl, rfl, rfl⟩
  have htext : entryOf keyText text i ++ rest = keyText i ++ ':' :: ' ' :: (text i ++ rest) := by
    simp [entryOf]
  rw [htext]
  refine (hkey.reads _ (ends_colon _)).then ((reads_expect hcolon _).then ?_)
  exact (hvalue.reads rest hrest).blank.then reads_pure

/-- Entries between braces, up to the brace that closes them. -/
theorem reads_entries_spelled (hkey : ∀ j ∈ i :: is, Spells levels (key j) (keyText j))
    (hvalue : ∀ j ∈ i :: is, Spells levels (value j) (text j)) (rest : List Char) :
    Reads True (commaList (entry (operandAt levels)))
      (betweenCommas (entryOf keyText text) (i :: is) ++ ' ' :: '\x7d' :: rest)
      ((i :: is).map fun j => ⟨key j, value j⟩) (' ' :: '\x7d' :: rest) := by
  have hlist : Reads (∀ j ∈ i :: is, True) (commaList (entry (operandAt levels)))
      (betweenCommas (entryOf keyText text) (i :: is) ++ ' ' :: '\x7d' :: rest)
      ((i :: is).map fun j => ⟨key j, value j⟩) (' ' :: '\x7d' :: rest) :=
    reads_commaList (persists_entry (persists_operandAt levels))
      ((nextKind_rightBrace rest).trans_ne (by decide)) fun j hj _ hends =>
        reads_entryOf (hkey j hj) (hvalue j hj) (ends_element hends (ends_rightBrace rest))
  exact hlist.congr (iff_true_intro fun _ _ => trivial)

/-- Entries in braces behind `map` are a map. -/
theorem spells_mapOf (hkey : ∀ j ∈ is, Spells levels (key j) (keyText j))
    (hvalue : ∀ j ∈ is, Spells levels (value j) (text j)) :
    Spells (levels + 1) (.mapOf (is.map fun j => ⟨key j, value j⟩))
      ("map".toList ++ ' ' :: '\x7b' :: (betweenBraces (entryOf keyText text) is ++ ['\x7d'])) := by
  have hword : isSimpleName "map".toList = true := by decide
  have htext (rest : List Char) : "map".toList ++ ' ' :: '\x7b' ::
      (betweenBraces (entryOf keyText text) is ++ ['\x7d']) ++ rest =
        "map".toList ++ ' ' :: '\x7b' :: (betweenBraces (entryOf keyText text) is ++ '\x7d' :: rest) := by
    simp
  have hmap (cs : List Char) : Starts ("map".toList ++ ' ' :: cs) .name "map" (' ' :: cs) :=
    starts_word hword (breaks_cons (by decide) cs)
  have hopen (cs : List Char) : Starts (' ' :: '\x7b' :: cs) .leftBrace "\x7b" cs :=
    (starts_mark rfl cs).blank
  refine spells_of_primary (fun rest _ => ?_) ?_ fun rest _ => ?_
  · rw [htext]
    exact begins_of_starts (hmap _) (isName_of_isSimpleName hword).head_ne (by decide)
  · refine Closes.ordinaries_append (by decide) (@Closes.ordinaries_append [' '] _ (by decide) ?_)
    exact Closes.brackets rfl rfl (Or.inl (by decide)) (breaks_cons (by decide) [])
      (closesInside_braces fun j hj => (closes_entryOf (hkey j hj) (hvalue j hj)).inside)
  · rw [htext]
    refine reads_primary_word (hmap _) (reads_current fun t _ ht => reads_following.then ?_)
    rw [ht, (hmap _).text, (hmap _).rest, (hopen _).kind]
    refine reads_advance fun _ _ _ => ?_
    rw [(hmap _).rest]
    refine reads_advance fun _ _ _ => ?_
    rw [(hopen _).rest]
    cases is with
    | nil => exact (reads_eat (starts_mark rfl rest)).then reads_pure
    | cons i is =>
      have hclose : Starts (' ' :: '\x7d' :: rest) .rightBrace "\x7d" rest :=
        (starts_mark rfl rest).blank
      have hbraces : betweenBraces (entryOf keyText text) (i :: is) ++ '\x7d' :: rest =
          ' ' :: (betweenCommas (entryOf keyText text) (i :: is) ++ ' ' :: '\x7d' :: rest) := by
        simp [betweenBraces]
      have hbegins : Begins (betweenCommas (entryOf keyText text) (i :: is) ++ ' ' :: '\x7d' :: rest) := by
        rw [betweenCommas, entryOf, List.append_assoc, List.append_assoc]
        exact (hkey i List.mem_cons_self).begins _ (ends_colon _)
      rw [hbraces]
      refine Reads.blank ((reads_eat_of_ne (hbegins.ne (by decide))).then ?_)
      refine (reads_entries_spelled hkey hvalue rest).then ?_
      exact (reads_expect hclose _).then reads_pure

/-! ### Whole texts -/

/-- A text that is spelled in all levels is read without errors. -/
theorem Spells.read (h : Spells maxNesting e cs) : Expr.read (String.ofList cs) = (e, []) := by
  have hbegins := h.begins [] ends_nil
  have hsingle := h.reads [] ends_nil
  rw [List.append_nil] at hbegins hsingle
  exact read_of_single (hbegins.ne (by decide)) hsingle

end TreeQuery.Parser

namespace TreeQuery

open TreeQuery.Parser

/-! ### Plain data -/

/-- A key is shown as the value that it stands for. -/
theorem MapKey.Data.spells {key : MapKey} (h : key.Data) {levels : Nat} (hlevels : 2 ≤ levels) :
    Spells levels key.source key.render.toList := by
  cases h with
  | string value => exact spells_string value (Nat.le_of_succ_le hlevels)
  | integer opposite => exact spells_integer opposite hlevels

namespace Item

/-- Only sequences have the expression of a sequence. -/
theorem Data.not_isSequence_source {depth : Nat} {item : Item} (h : item.Data depth)
    (hitem : item.isSequence = false) : ¬ item.source.IsSequence := by
  cases h with
  | integer _ =>
    simp only [source, Integer.source]
    split <;> exact id
  | sequence _ _ _ => contradiction
  | string _ | boolean _ | array _ | map _ _ _ => exact id

/-- Plain data is shown as its expression. Each sequence, array or map takes a level, and a value in
the innermost of them two at most. -/
theorem Data.spells {depth : Nat} {item : Item} (h : item.Data depth) (forest : Forest) {levels : Nat}
    (hlevels : depth + 2 ≤ levels) : Spells levels item.source (item.render forest).toList := by
  induction h generalizing levels with
  | integer opposite =>
    rw [render]
    exact spells_integer opposite (by omega)
  | string value =>
    rw [render]
    exact spells_string value (by omega)
  | boolean value =>
    rw [render]
    exact spells_boolean value (by omega)
  | sequence length flat inner ih =>
    obtain ⟨levels, rfl⟩ : ∃ n, levels = n + 1 := ⟨levels - 1, by omega⟩
    rw [toList_render_sequence, source, sources_eq_map]
    refine spells_sequence length (fun i hi => (inner i hi).not_isSequence_source (flat i hi))
      fun i hi => ih i hi (by omega)
  | array _ ih =>
    obtain ⟨levels, rfl⟩ : ∃ n, levels = n + 1 := ⟨levels - 1, by omega⟩
    rw [toList_render_array, source, sources_eq_map]
    exact spells_squareArray fun m hm => ih m hm (by omega)
  | map _ key _ ih =>
    obtain ⟨levels, rfl⟩ : ∃ n, levels = n + 1 := ⟨levels - 1, by omega⟩
    rw [toList_render_map, source, entrySources_eq_map]
    exact spells_mapOf (fun m hm => (key m hm).spells (by omega)) fun m hm => ih m hm (by omega)

/-- What is shown of plain data is read without errors, and the value of that expression is the data.
Levels of the parser have to be left for two more than there are sequences, arrays and maps around any
value, and a level of calls for `true()` and `false()`. -/
theorem evaluate_read_render {depth : Nat} {item : Item} (h : item.Data depth)
    (hdepth : depth + 2 ≤ maxNesting) (forest : Forest) (c : Context)
    (hc : c.depth < c.limits.depth) :
    ∃ e, Expr.read (item.render forest) = (e, []) ∧
      (Eval.evaluate .library e).run.run c = (.ok item, c) ∧ item.same item = true := by
  have hread := (h.spells forest hdepth).read
  rw [String.ofList_toList] at hread
  refine ⟨item.source, hread, ?_, h.same_self⟩
  rw [Eval.run_evaluate_expr]
  exact Eval.run_source h hc

/-- A quote in a key, a sign in front of a key, and a text that looks like a comment. -/
theorem evaluate_read_render_map :
    let item : Item := .map [(.string "a\x22", .array [.integer (-1), .sequence []]),
      (.integer (-7), .sequence [.boolean true, .string "(:"])]
    let c : Context := {}
    (item.Data 3 ∧ 3 + 2 ≤ maxNesting ∧ c.depth < c.limits.depth) ∧
      item.render c.forest = "map \x7b \x22a\x22\x22\x22: [-1, ()], -7: (true(), \x22(:\x22) \x7d" ∧
      ∃ e, Expr.read (item.render c.forest) = (e, []) ∧
        (Eval.evaluate .library e).run.run c = (.ok item, c) ∧ item.same item = true := by
  intro item c
  have harray : Data 2 (.array [.integer (-1), .sequence []]) := by
    refine .array (List.forall_mem_cons.mpr ⟨.integer (by decide), List.forall_mem_singleton.mpr ?_⟩)
    exact .sequence (by decide) nofun nofun
  have hsequence : Data 2 (.sequence [.boolean true, .string "(:"]) := by
    refine .sequence (by decide) (by decide) (List.forall_mem_cons.mpr ⟨.boolean true, ?_⟩)
    exact List.forall_mem_singleton.mpr (.string "(:")
  have hitem : item.Data 3 := by
    refine .map (by decide) ?_ ?_
    · exact List.forall_mem_cons.mpr
        ⟨.string "a\x22", List.forall_mem_singleton.mpr (.integer (by decide))⟩
    · exact List.forall_mem_cons.mpr ⟨harray, List.forall_mem_singleton.mpr hsequence⟩
  exact ⟨⟨hitem, by decide, by decide⟩, by rfl, evaluate_read_render hitem (by decide) #[] c (by decide)⟩

end Item

end TreeQuery
