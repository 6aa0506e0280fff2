import Mathlib.Data.List.Infix
import Mathlib.Tactic.Common
import TreeQuery.Proofs.Parser.Position
import TreeQuery.Proofs.Parser.Progress

/-!
# What a parser reads

`Reads fits p cs a rest` describes a parser on a text from which it should take something: if what it
reads fits, it gives `a` and stands in front of `rest` without having missed anything; if not, it
notes an error. What does not fit is an operand that is nested too deep. Errors are never taken
back, which is `Persists`, so one that is noted on the way is there at the end.
-/

namespace TreeQuery.Parser

variable {α β : Type}

/-! ### Errors stay -/

/-- A parser that only adds errors to those that were noted before. -/
def Persists (p : Parser α) : Prop := ∀ s, s.errors <:+ (p s).state.errors

private theorem Persists.errors_ne_nil {p : Parser α} (hp : p.Persists) {s : ParserState}
    (hs : s.errors ≠ []) : (p s).state.errors ≠ [] := by
  intro h
  have hsuffix := hp s
  rw [h] at hsuffix
  exact hs (List.suffix_nil.mp hsuffix)

theorem persists_pure (a : α) : Persists (pure a : Parser α) := fun _ => List.suffix_rfl

/-- Two steps in turn only add errors if each does. -/
theorem Persists.bind {p : Parser α} {f : α → Parser β} (hp : p.Persists)
    (hf : ∀ a, (f a).Persists) : (p >>= f).Persists :=
  fun s => (hp s).trans (hf (p s).value (p s).state)

/-- A choice only adds errors if both branches do. -/
theorem Persists.ite {c : Prop} [Decidable c] {p q : Parser α} (hp : p.Persists)
    (hq : q.Persists) : (if c then p else q).Persists := by
  split
  · exact hp
  · exact hq

private theorem progress_persists : Progress fun _ s t => s.errors <:+ t.errors where
  refl _ _ := List.suffix_rfl
  trans := .trans
  tokens _ _ _ _ := List.suffix_rfl
  missed _ _ _ := List.suffix_cons ..
  suppressed _ _ _ := List.suffix_rfl
  nested h := h

/-- To only add errors goes up from the steps of readers. -/
theorem congruence_persists :
    Congruence (fun _ _ p _ => p.Persists) fun t t' => t.kind = t'.kind ∧ t.text = t'.text :=
  progress_persists.congruence

theorem persists_isAt (kind : TokenKind) : (isAt kind).Persists :=
  congruence_persists.isAt (l := 0) kind

/-- An error is added. -/
theorem persists_error (expected : String) : (failed (error expected)).Persists :=
  congruence_persists.error (l := 0) expected

theorem persists_expect (kind : TokenKind) (expected : String) : (expect kind expected).Persists :=
  congruence_persists.expect (l := 0) kind expected

theorem persists_expectWord (word : String) : (expectWord word).Persists :=
  congruence_persists.expectWord (l := 0) word

/-- A list only adds errors if its elements do. -/
theorem Persists.many {p : Parser α} (hp : p.Persists) (kind : TokenKind) :
    Persists (many kind p) := progress_persists.many (l := 0) kind hp

/-! ### Reading a text -/

/-- On the text `cs` the parser gives `a` and leaves `rest` if this fits, and misses something if it
does not. -/
def Reads (fits : Prop) (p : Parser α) (cs : List Char) (a : α) (rest : List Char) : Prop :=
  ∀ s : ParserState, s.At cs →
    (fits → (p s).value = a ∧ (p s).state.At rest) ∧ (¬ fits → (p s).state.errors ≠ [])

variable {fits fits' : Prop} {cs ds rest : List Char} {a : α} {b : β}

/-- Only whether it fits matters of what has to fit. -/
theorem Reads.congr {p : Parser α} (h : Reads fits p cs a rest) (hiff : fits ↔ fits') :
    Reads fits' p cs a rest := by
  rwa [← propext hiff]

/-- What certainly fits is read. -/
theorem reads_of_fits {p : Parser α}
    (h : ∀ s : ParserState, s.At cs → (p s).value = a ∧ (p s).state.At rest) :
    Reads True p cs a rest := fun s hs => ⟨fun _ => h s hs, fun hn => absurd trivial hn⟩

/-- A value alone reads nothing. -/
theorem reads_pure : Reads True (pure a) cs a cs := reads_of_fits fun _ hs => ⟨rfl, hs⟩

/-- Two steps in turn read a text if the second one reads what the first one leaves. -/
theorem Reads.bind {p : Parser α} {f : α → Parser β} (hp : Reads fits p cs a ds)
    (hpersists : ∀ a, (f a).Persists) (hf : Reads fits' (f a) ds b rest) :
    Reads (fits ∧ fits') (p >>= f) cs b rest := by
  intro s hs
  obtain ⟨hfits, hmiss⟩ := hp s hs
  constructor
  · rintro ⟨h, h'⟩
    obtain ⟨rfl, hat⟩ := hfits h
    exact (hf _ hat).1 h'
  · intro h
    by_cases hfirst : fits
    · obtain ⟨rfl, hat⟩ := hfits hfirst
      exact (hf _ hat).2 fun h' => h ⟨hfirst, h'⟩
    · exact (hpersists _).errors_ne_nil (hmiss hfirst)

/-- A first part that certainly fits. -/
theorem Reads.then {p : Parser α} {f : α → Parser β} (hp : Reads True p cs a ds)
    (hf : Reads fits (f a) ds b rest) : Reads fits (p >>= f) cs b rest := by
  intro s hs
  obtain ⟨rfl, hat⟩ := (hp s hs).1 trivial
  exact hf _ hat

/-- What is made of a value makes no difference to what is read. -/
theorem Reads.map {p : Parser α} (f : α → β) (hp : Reads fits p cs a rest) :
    Reads fits (f <$> p) cs (f a) rest :=
  (hp.bind (fun _ => persists_pure _) reads_pure).congr (and_iff_left trivial)

/-- A last part that certainly fits. -/
theorem Reads.andThen {p : Parser α} {f : α → Parser β} (hp : Reads fits p cs a ds)
    (hpersists : ∀ a, (f a).Persists) (hf : Reads True (f a) ds b rest) :
    Reads fits (p >>= f) cs b rest :=
  (hp.bind hpersists hf).congr (and_iff_left trivial)

/-- One level deeper the same is read. -/
theorem Reads.nested {p : Parser α} (hp : Reads fits p cs a rest) :
    Reads fits (nested p) cs a rest := by
  intro s hs
  obtain ⟨hfits, hmiss⟩ := hp _ (hs.withCounters _)
  refine ⟨fun h => ?_, hmiss⟩
  obtain ⟨hvalue, hat⟩ := hfits h
  exact ⟨hvalue, hat.withCounters _⟩

/-- Blanks in front of a text are passed over. -/
theorem Reads.blank {p : Parser α} (h : Reads fits p cs a rest) : Reads fits p (' ' :: cs) a rest :=
  fun s hs => h s hs.blank

/-! ### Single tokens -/

/-- Whether a token comes next is told by the text. -/
theorem reads_isAt (kind : TokenKind) : Reads True (isAt kind) cs (nextKind cs == kind) cs :=
  reads_of_fits fun s hs =>
    ⟨congrArg (· == kind) (show (s.tokens.headD (endToken s)).kind = _ from hs.head.1), hs⟩

/-- Whether a word comes next is told by the text. -/
theorem reads_isAtWord (word : String) :
    Reads True (isAtWord word) cs (nextKind cs == .name && nextText cs == word) cs := by
  refine reads_of_fits fun s hs => ⟨?_, hs⟩
  change (s.tokens.headD (endToken s)).isWord word = _
  rw [Token.isWord, hs.head.1, hs.head.2]

/-- The token behind the next one is told by the text. -/
theorem reads_following : Reads True following cs (nextKind (afterToken cs)) cs :=
  reads_of_fits fun _ hs => ⟨hs.following, hs⟩

/-- The next token is looked at; where it stands does not matter. -/
theorem reads_current {f : Token → Parser β}
    (h : ∀ t, t.kind = nextKind cs → t.text = nextText cs → Reads fits (f t) cs b rest) :
    Reads fits (current >>= f) cs b rest :=
  fun s hs => h _ hs.head.1 hs.head.2 s hs

/-- The next token is taken; where it stands does not matter. -/
theorem reads_advance {f : Token → Parser β}
    (h : ∀ t, t.kind = nextKind cs → t.text = nextText cs →
      Reads fits (f t) (afterToken cs) b rest) : Reads fits (advance >>= f) cs b rest :=
  fun _ hs => h _ hs.head.1 hs.head.2 _ hs.tail

/-- A token that does not come next is left. -/
theorem reads_eat_of_ne {kind : TokenKind} (h : nextKind cs ≠ kind) :
    Reads True (eat kind) cs false cs := by
  refine (reads_isAt kind).then ?_
  rw [beq_false_of_ne h]
  exact reads_pure

variable {kind : TokenKind} {text : String}

/-- A token that comes next is taken. -/
theorem reads_eat (h : Starts cs kind text rest) : Reads True (eat kind) cs true rest := by
  obtain ⟨rfl, rfl, rfl⟩ := h
  refine (reads_isAt _).then ?_
  rw [beq_self_eq_true]
  exact reads_advance fun _ _ _ => reads_pure

/-- A token that must be there is taken where it is. -/
theorem reads_expect (h : Starts cs kind text rest) (expected : String) :
    Reads True (expect kind expected) cs true rest :=
  (reads_eat h).then reads_pure

/-- A word that must be there is taken where it is. -/
theorem reads_expectWord (h : Starts cs .name text rest) :
    Reads True (expectWord text) cs () rest := by
  refine (reads_isAtWord text).then ?_
  obtain ⟨hkind, rfl, rfl⟩ := h
  rw [hkind, beq_self_eq_true, beq_self_eq_true]
  exact reads_advance fun _ _ _ => reads_pure

/-- In front of an opening parenthesis it can be told whether the group has a comma of its own. -/
theorem reads_isAtList (h : Starts cs .leftParen text rest) :
    Reads True isAtList cs (hasOwnComma rest) cs := by
  have heof : nextKind cs ≠ .eof := by
    rw [h.kind]
    decide
  refine reads_of_fits fun s hs => ⟨?_, hs⟩
  change hasOwnComma (textFrom _ s.source) = _
  rw [hs.textFrom_head heof, h.rest]

/-! ### Repetition -/

/-- A list without elements is none. -/
theorem reads_many_nil (kind : TokenKind) (p : Parser α) (h : nextKind cs ≠ kind) :
    Reads True (many kind p) cs [] cs := by
  refine reads_of_fits fun s hs => ?_
  have hne : ∀ t ts, s.tokens = t :: ts → t.kind ≠ kind := by
    intro t ts htokens
    have hhead := hs.head.1
    rw [htokens] at hhead
    rwa [← hhead] at h
  obtain ⟨hvalue, hstate⟩ := many_of_ne (p := p) hne
  rw [hvalue, hstate]
  exact ⟨rfl, hs⟩

/-- A list is read as its first element and a list. -/
theorem reads_many_cons {p : Parser α} {as : List α} {es : List Char} (hp : p.Persists)
    (hstarts : Starts cs kind text ds) (heof : kind ≠ .eof) (hfirst : Reads fits p ds a es)
    (hrest : Reads fits' (many kind p) es as rest) :
    Reads (fits ∧ fits') (many kind p) cs (a :: as) rest := by
  have hboth : Reads (fits ∧ fits')
      (do let a ← p; let as ← fun s => many kind p s; return a :: as) ds (a :: as) rest :=
    hfirst.bind (fun a => Persists.bind (hp.many kind) fun _ => persists_pure _)
      (hrest.andThen (fun _ => persists_pure _) reads_pure)
  intro s hs
  obtain ⟨hkind, -, hds⟩ := hstarts
  obtain ⟨t, ts, htokens, ht, -⟩ := hs.exists_cons (hkind.trans_ne heof)
  have htail := hs.tail
  rw [htokens, hds] at htail
  obtain ⟨hvalue, hstate⟩ := many_of_cons (p := p) htokens (ht.trans hkind)
  rw [hvalue, hstate]
  exact hboth _ htail

/-- What follows an element of a list: another one behind a comma, or the end of the list if it is the
last. -/
def EndsElement {ι : Type} (is : List ι) (i : ι) (after rest : List Char) : Prop :=
  (rest = after ∧ is.getLast? = some i) ∨ rest.head? = some ','

private theorem EndsElement.cons {ι : Type} {is : List ι} {j : ι} {after : List Char}
    (h : EndsElement is j after rest) (i : ι) : EndsElement (i :: is) j after rest := by
  rcases h with ⟨hrest, hlast⟩ | hhead
  · exact Or.inl ⟨hrest, by rw [List.getLast?_cons, hlast]; rfl⟩
  · exact Or.inr hhead

private theorem endsElement_first {ι : Type} (element : ι → List Char) (i : ι) (is : List ι)
    (after : List Char) :
    EndsElement (i :: is) i after (is.flatMap (fun i => ',' :: ' ' :: element i) ++ after) := by
  cases is with
  | nil => exact Or.inl ⟨rfl, rfl⟩
  | cons j js => exact Or.inr rfl

/-- Elements with commas in front of them, up to a token that is no comma. -/
theorem reads_many_comma {ι : Type} {p : Parser α} {element : ι → List Char} {value : ι → α}
    {fits : ι → Prop} {after : List Char} (hp : p.Persists) (hafter : nextKind after ≠ .comma)
    {is : List ι}
    (h : ∀ i ∈ is, ∀ rest, EndsElement is i after rest →
      Reads (fits i) p (element i ++ rest) (value i) rest) :
    Reads (∀ i ∈ is, fits i) (many .comma p)
      (is.flatMap (fun i => ',' :: ' ' :: element i) ++ after) (is.map value) after := by
  induction is with
  | nil => exact (reads_many_nil _ _ hafter).congr (by simp)
  | cons i is ih =>
    rw [List.forall_mem_cons] at h
    have hfirst := (h.1 _ (endsElement_first element i is after)).blank
    have hlater := ih fun j hj rest hends => h.2 j hj rest (hends.cons i)
    have htext : (i :: is).flatMap (fun i => ',' :: ' ' :: element i) ++ after =
        ',' :: ' ' :: (element i ++ (is.flatMap (fun i => ',' :: ' ' :: element i) ++ after)) := by
      simp
    rw [htext, List.map_cons]
    have hcomma : Starts (',' :: ' ' ::
        (element i ++ (is.flatMap (fun i => ',' :: ' ' :: element i) ++ after))) .comma "," _ :=
      ⟨rfl, rfl, rfl⟩
    refine (reads_many_cons hp hcomma (by decide) hfirst hlater).congr ?_
    rw [List.forall_mem_cons]

/-- A list with commas is read as its elements, each up to what follows it. -/
theorem reads_commaList {ι : Type} {p : Parser α} {element : ι → List Char} {value : ι → α}
    {fits : ι → Prop} {after : List Char} (hp : p.Persists) (hafter : nextKind after ≠ .comma)
    {i : ι} {is : List ι}
    (h : ∀ j ∈ i :: is, ∀ rest, EndsElement (i :: is) j after rest →
      Reads (fits j) p (element j ++ rest) (value j) rest) :
    Reads (∀ j ∈ i :: is, fits j) (commaList p)
      (element i ++ is.flatMap (fun i => ',' :: ' ' :: element i) ++ after)
      ((i :: is).map value) after := by
  rw [List.forall_mem_cons] at h
  have hfirst := h.1 _ (endsElement_first element i is after)
  have hlater := reads_many_comma hp hafter fun j hj rest hends => h.2 j hj rest (hends.cons i)
  rw [List.append_assoc]
  refine (hfirst.bind (fun a => (hp.many _).bind fun _ => persists_pure _)
    (hlater.andThen (fun _ => persists_pure _) reads_pure)).congr ?_
  rw [List.forall_mem_cons]

end TreeQuery.Parser
