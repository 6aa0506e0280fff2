import TreeQuery.Proofs.Parser.KindTests

/-!
# Reading types

The text of a type is read as the type. `TypeEnds` is what is asked of the text behind it: it ends a
name, and it does not start with a mark of how many items there may be.
-/

namespace TreeQuery

/-- A text that cannot go on with the type of an item in front of it. -/
structure ItemTypeEnds (rest : List Char) : Prop where
  name : NameEnds rest
  word : nextKind rest ≠ .name

/-- A text that cannot go on with the type of a sequence in front of it. -/
structure TypeEnds (rest : List Char) : Prop extends ItemTypeEnds rest where
  mark : nextKind rest ≠ .question ∧ nextKind rest ≠ .star ∧ nextKind rest ≠ .plus

end TreeQuery

namespace TreeQuery.Parser

variable {cs rest : List Char} {text : String}

/-! ### Item types -/

private theorem reads_skipParameters {inner : List Char} (hinner : inner = [] ∨ inner = ['*']) :
    Reads True skipParameters ('(' :: (inner ++ ')' :: rest)) () rest := by
  have hopen : Starts ('(' :: (inner ++ ')' :: rest)) .leftParen "(" (inner ++ ')' :: rest) := by
    refine starts_leftParen ?_
    rcases hinner with rfl | rfl <;> simp
  have hskip : ∀ s : ParserState, s.At (inner ++ ')' :: rest) →
      ∃ ts, skipGroup 1 s.tokens = (ts, true) ∧ ParserState.At { s with tokens := ts } rest := by
    have hclose : ∀ s : ParserState, s.At (')' :: rest) →
        ∃ ts, skipGroup 1 s.tokens = (ts, true) ∧ ParserState.At { s with tokens := ts } rest := by
      intro s hs
      have hstarts := starts_mark (c := ')') rfl rest
      obtain ⟨t, ts, hcons, ht, -⟩ := hs.exists_cons (hstarts.kind.trans_ne (by decide))
      have htail := hs.tail
      rw [hstarts.kind] at ht
      rw [hcons, hstarts.rest] at htail
      exact ⟨ts, by rw [hcons, skipGroup, ht]; rfl, htail⟩
    rcases hinner with rfl | rfl
    · exact hclose
    · intro s hs
      have hstarts := starts_mark (c := '*') rfl (')' :: rest)
      obtain ⟨t, ts, hcons, ht, -⟩ := hs.exists_cons (hstarts.kind.trans_ne (by decide))
      have htail := hs.tail
      rw [show nextKind (['*'] ++ ')' :: rest) = .star from hstarts.kind] at ht
      rw [hcons, show afterToken (['*'] ++ ')' :: rest) = _ from hstarts.rest] at htail
      obtain ⟨us, hus, hat⟩ := hclose _ htail
      exact ⟨us, by rw [hcons, skipGroup, ht]; exact hus, hat⟩
  refine reads_of_fits fun s hs => ?_
  obtain ⟨t, ts, hcons, ht, -⟩ := hs.exists_cons (hopen.kind.trans_ne (by decide))
  have htail := hs.tail
  rw [hcons, hopen.rest] at htail
  rw [hopen.kind] at ht
  obtain ⟨us, hus, hat⟩ := hskip _ htail
  have hsplit : skipGroup 0 s.tokens = (us, true) := by
    rw [hcons, skipGroup, ht]
    exact hus
  unfold skipParameters
  simp only [hsplit, if_true]
  exact ⟨trivial, hat⟩

/-- A type that is spelled with parameters in parentheses. -/
theorem reads_itemType_parameterized {word : String} {type : ItemType} {inner : List Char}
    (hword : (word, type) ∈ parameterizedTypes) (hinner : inner = [] ∨ inner = ['*'])
    (hrest : ItemTypeEnds rest) (levels : Nat) :
    Reads True (itemType levels) (word.toList ++ '(' :: (inner ++ ')' :: rest)) type rest := by
  simp only [parameterizedTypes, List.mem_cons, Prod.mk.injEq, List.not_mem_nil, or_false] at hword
  have hsimple : isSimpleName word.toList = true := by
    rcases hword with ⟨rfl, -⟩ | ⟨rfl, -⟩ | ⟨rfl, -⟩ | ⟨rfl, -⟩ <;> decide
  have hstarts : Starts (word.toList ++ '(' :: (inner ++ ')' :: rest)) .name word
      ('(' :: (inner ++ ')' :: rest)) := starts_word hsimple (breaks_cons (by decide) _)
  have hopen : Starts ('(' :: (inner ++ ')' :: rest)) .leftParen "(" (inner ++ ')' :: rest) := by
    refine starts_leftParen ?_
    rcases hinner with rfl | rfl <;> simp
  unfold itemType
  refine (reads_eat_of_ne (hstarts.kind.trans_ne (by decide))).then ?_
  refine reads_current fun t hkind ht => ?_
  rw [hstarts.kind] at hkind
  rw [hstarts.text] at ht
  rw [hkind, ht]
  refine (reads_isAtKindTest hstarts).then ?_
  have hnoTest : KindTest.ofKeyword? word = none := by
    rcases hword with ⟨rfl, -⟩ | ⟨rfl, -⟩ | ⟨rfl, -⟩ | ⟨rfl, -⟩ <;> rfl
  rw [hnoTest, Option.isSome_none, Bool.and_false]
  refine reads_following.then ?_
  rw [hstarts.rest, hopen.kind]
  have hlookup : parameterizedTypes.lookup word = some type := by
    rcases hword with ⟨rfl, rfl⟩ | ⟨rfl, rfl⟩ | ⟨rfl, rfl⟩ | ⟨rfl, rfl⟩ <;> rfl
  rw [hlookup]
  refine reads_advance fun _ _ _ => ?_
  rw [hstarts.rest]
  refine (reads_skipParameters hinner).then ?_
  split
  · refine (reads_isAtWord _).then ?_
    rw [beq_false_of_ne hrest.word]
    exact reads_pure
  · exact reads_pure

private theorem reads_atomicType (type : AtomicType) (hrest : NameEnds rest) :
    Reads True atomicType (type.name.toList ++ rest) type rest := by
  have hname : (QName.mk (some "xs") type.localName).WellFormed := by
    refine ⟨?_, ?_⟩
    · cases type <;> decide
    · rintro _ ⟨rfl⟩
      decide
  refine reads_current fun t _ _ => (reads_qualifiedName hname hrest _).then ?_
  have hfound : AtomicType.ofName? ⟨some "xs", type.localName⟩ = some type := by
    cases type <;> decide
  rw [hfound]
  exact reads_pure

private theorem starts_atomicType (type : AtomicType) (rest : List Char) :
    Starts (type.name.toList ++ rest) .name "xs" (':' :: (type.localName.toList ++ rest)) := by
  have htext : type.name.toList ++ rest = "xs".toList ++ ':' :: (type.localName.toList ++ rest) := by
    rw [AtomicType.name]
    simp
  rw [htext]
  exact starts_word (by decide) (breaks_cons (by decide) _)

private theorem reads_itemType_atomic (type : AtomicType) (hrest : ItemTypeEnds rest) (levels : Nat) :
    Reads True (itemType levels) (type.name.toList ++ rest) (.atomic type) rest := by
  have hstarts := starts_atomicType type rest
  unfold itemType
  refine (reads_eat_of_ne (hstarts.kind.trans_ne (by decide))).then ?_
  refine reads_current fun t hkind ht => ?_
  rw [hstarts.kind] at hkind
  rw [hstarts.text] at ht
  rw [hkind, ht]
  refine (reads_isAtKindTest hstarts).then ?_
  rw [show KindTest.ofKeyword? "xs" = none from rfl, Option.isSome_none, Bool.and_false]
  refine reads_following.then ?_
  rw [hstarts.rest, show parameterizedTypes.lookup "xs" = none from rfl]
  exact (reads_atomicType type hrest.name).then reads_pure

private theorem reads_itemType_node {n levels : Nat} {test : KindTest} (h : test.Written n cs)
    (hle : n ≤ levels)
    (rest : List Char) :
    Reads True (itemType levels) (test.keyword.toList ++ '(' :: (cs ++ ')' :: rest)) (.node test)
      rest := by
  have hstarts := starts_keyword test (cs ++ ')' :: rest)
  unfold itemType
  refine (reads_eat_of_ne (hstarts.kind.trans_ne (by decide))).then ?_
  refine reads_current fun t hkind _ => ?_
  rw [hstarts.kind] at hkind
  rw [hkind]
  exact (reads_isAtKindTest_true h rest).then ((reads_kindTest h hle rest).then reads_pure)

private theorem reads_itemType {type : ItemType} (hformed : type.WellFormed) (hreadable : type.Readable)
    (hrest : ItemTypeEnds rest) (levels : Nat) :
    Reads True (itemType levels) (type.render.toList ++ rest) type.reread rest := by
  have hempty (word : String) :
      (word ++ "()").toList ++ rest = word.toList ++ '(' :: ([] ++ ')' :: rest) := by
    simp
  have hstar (word : String) :
      (word ++ "(*)").toList ++ rest = word.toList ++ '(' :: (['*'] ++ ')' :: rest) := by
    simp
  cases type with
  | item =>
    rw [show ItemType.item.render.toList ++ rest = _ from hempty "item"]
    exact reads_itemType_parameterized (by simp [parameterizedTypes, ItemType.reread]) (Or.inl rfl) hrest levels
  | atomic type => exact reads_itemType_atomic type hrest levels
  | node test =>
    rw [ItemType.render, test.toList_render, ItemType.reread, ← test.keyword_reread]
    exact reads_itemType_node (test.written_argument hformed hreadable levels) (Nat.le_refl _) rest
  | map =>
    rw [show ItemType.map.render.toList ++ rest = _ from hstar "map"]
    exact reads_itemType_parameterized (by simp [parameterizedTypes, ItemType.reread]) (Or.inr rfl) hrest levels
  | array =>
    rw [show ItemType.array.render.toList ++ rest = _ from hstar "array"]
    exact reads_itemType_parameterized (by simp [parameterizedTypes, ItemType.reread]) (Or.inr rfl) hrest levels
  | function =>
    rw [show ItemType.function.render.toList ++ rest = _ from hstar "function"]
    exact reads_itemType_parameterized (by simp [parameterizedTypes, ItemType.reread]) (Or.inr rfl) hrest levels

/-! ### Sequence types -/

/-- An item type starts with a word, which is not that of the empty sequence. -/
theorem starts_itemType (type : ItemType) (rest : List Char) :
    ∃ word after, Starts (type.render.toList ++ rest) .name word after ∧ word ≠ "empty-sequence" := by
  have hparen (word : String) (hword : isSimpleName word.toList = true) (inner : String) :
      Starts ((word ++ "(" ++ inner).toList ++ rest) .name word ('(' :: (inner.toList ++ rest)) := by
    have htext : (word ++ "(" ++ inner).toList ++ rest = word.toList ++ '(' :: (inner.toList ++ rest) := by
      simp
    rw [htext]
    exact starts_word hword (breaks_cons (by decide) _)
  cases type with
  | item => exact ⟨_, _, hparen "item" (by decide) ")", by decide⟩
  | map => exact ⟨_, _, hparen "map" (by decide) "*)", by decide⟩
  | array => exact ⟨_, _, hparen "array" (by decide) "*)", by decide⟩
  | function => exact ⟨_, _, hparen "function" (by decide) "*)", by decide⟩
  | atomic type => exact ⟨_, _, starts_atomicType type rest, by decide⟩
  | node test =>
    refine ⟨_, _, test.toList_render rest ▸ starts_keyword test _, ?_⟩
    cases test with
    | anyNode | text | comment | document => decide
    | processingInstruction _ => exact (by decide : "processing-instruction" ≠ "empty-sequence")
    | element _ => exact (by decide : "element" ≠ "empty-sequence")
    | «attribute» _ => exact (by decide : "attribute" ≠ "empty-sequence")

private theorem itemTypeEnds_mark {c : Char} (h : c ∈ ['?', '*', '+']) (cs : List Char) :
    ItemTypeEnds (c :: cs) := by
  simp only [List.mem_cons, List.not_mem_nil, or_false] at h
  rcases h with rfl | rfl | rfl
  · exact ⟨nameEnds_cons (by decide) cs, (starts_mark rfl cs).kind.trans_ne (by decide)⟩
  · exact ⟨nameEnds_cons (by decide) cs, (starts_mark rfl cs).kind.trans_ne (by decide)⟩
  · exact ⟨nameEnds_cons (by decide) cs, (starts_mark rfl cs).kind.trans_ne (by decide)⟩

/-- Types are read back. -/
theorem reads_sequenceType {type : SequenceType} (hformed : type.WellFormed)
    (hreadable : type.Readable) (hrest : TypeEnds rest) (levels : Nat) :
    Reads True (sequenceType levels) (type.render.toList ++ rest) type.reread rest := by
  cases type with
  | empty =>
    have htext : SequenceType.empty.render.toList ++ rest =
        "empty-sequence".toList ++ '(' :: ')' :: rest := by
      change ("empty-sequence" ++ "()").toList ++ rest = _
      simp
    have hstarts : Starts ("empty-sequence".toList ++ '(' :: ')' :: rest) .name "empty-sequence"
        ('(' :: ')' :: rest) := starts_word (by decide) (breaks_cons (by decide) _)
    rw [htext]
    refine (reads_isAtWord _).then (reads_following.then ?_)
    rw [hstarts.kind, hstarts.text, hstarts.rest]
    refine reads_advance fun _ _ _ => ?_
    rw [hstarts.rest]
    refine reads_advance fun _ _ _ => ?_
    exact reads_close _
  | items type occurrence =>
    have hread (after : List Char) (hafter : ItemTypeEnds after) :
        Reads True (itemType levels) (type.render.toList ++ after) type.reread after :=
      reads_itemType hformed hreadable hafter levels
    have hword (after : List Char) :
        (nextKind (type.render.toList ++ after) == .name &&
          nextText (type.render.toList ++ after) == "empty-sequence") = false := by
      obtain ⟨word, _, hstarts, hne⟩ := starts_itemType type after
      rw [hstarts.kind, hstarts.text, beq_false_of_ne hne, Bool.and_false]
    rw [SequenceType.render, String.toList_append, List.append_assoc]
    refine (reads_isAtWord _).then (reads_following.then ?_)
    rw [hword, Bool.false_and, if_neg Bool.false_ne_true]
    cases occurrence with
    | one =>
      rw [show Occurrence.one.render.toList ++ rest = rest from rfl]
      refine (hread rest hrest.toItemTypeEnds).then ?_
      refine (reads_eat_of_ne hrest.mark.1).then ?_
      refine (reads_eat_of_ne hrest.mark.2.1).then ?_
      exact (reads_eat_of_ne hrest.mark.2.2).then reads_pure
    | optional =>
      rw [show Occurrence.optional.render.toList ++ rest = '?' :: rest from rfl]
      refine (hread _ (itemTypeEnds_mark (by simp) rest)).then ?_
      exact (reads_eat (starts_mark rfl rest)).then reads_pure
    | many =>
      rw [show Occurrence.many.render.toList ++ rest = '*' :: rest from rfl]
      have hstar := starts_mark (c := '*') rfl rest
      refine (hread _ (itemTypeEnds_mark (by simp) rest)).then ?_
      refine (reads_eat_of_ne (hstar.kind.trans_ne (by decide))).then ?_
      exact (reads_eat hstar).then reads_pure
    | oneOrMore =>
      rw [show Occurrence.oneOrMore.render.toList ++ rest = '+' :: rest from rfl]
      have hplus := starts_mark (c := '+') rfl rest
      refine (hread _ (itemTypeEnds_mark (by simp) rest)).then ?_
      refine (reads_eat_of_ne (hplus.kind.trans_ne (by decide))).then ?_
      refine (reads_eat_of_ne (hplus.kind.trans_ne (by decide))).then ?_
      exact (reads_eat hplus).then reads_pure

/-- Types of casts are read back. -/
theorem reads_singleType (type : SingleType) (hrest : TypeEnds rest) :
    Reads True singleType (type.render.toList ++ rest) type rest := by
  obtain ⟨type, optional⟩ := type
  cases optional with
  | true =>
    have htext : (SingleType.mk type true).render.toList ++ rest =
        type.name.toList ++ '?' :: rest := by
      simp [SingleType.render]
    rw [htext]
    refine (reads_atomicType type (nameEnds_cons (by decide) _)).then ?_
    exact (reads_eat (starts_mark rfl rest)).then reads_pure
  | false =>
    have htext : (SingleType.mk type false).render.toList ++ rest = type.name.toList ++ rest := by
      simp [SingleType.render]
    rw [htext]
    refine (reads_atomicType type hrest.name).then ?_
    exact (reads_eat_of_ne hrest.mark.1).then reads_pure

end TreeQuery.Parser
