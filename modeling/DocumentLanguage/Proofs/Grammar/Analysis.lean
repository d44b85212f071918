import DocumentLanguage.Proofs.Grammar.NameSet
import DocumentLanguage.Proofs.Grammar.Reading
import Mathlib.Data.Finset.Card
import Mathlib.Data.Finset.Option
import Mathlib.Data.Finset.Prod
import Mathlib.Tactic.Ring

/-!
What is found out about the rules of a catalog. Which of them match nothing and what each begins
with are least relations on the productions. Refining what is known never loses anything and adds
only what holds; there is only so much to be known, so that after enough rounds nothing new follows,
and then all that holds is known.
-/
namespace DocumentLanguage

/-! ### What holds of a catalog -/

/-- An alternative of a name, as the production of the name means it. -/
def Catalog.Alternates (catalog : Catalog) (name : String) (alternative : Alternative) : Prop :=
  ∃ production alternatives, (name, production) ∈ catalog ∧ Reads production alternatives ∧
    alternative ∈ alternatives

/-- An alternative can match nothing. -/
inductive MatchesNothing (catalog : Catalog) : Alternative → Prop
  | nil : MatchesNothing catalog []
  | absent {item : Item} {items : Alternative} (absent : item.mayBeAbsent = true)
      (rest : MatchesNothing catalog items) : MatchesNothing catalog (item :: items)
  | rule {name : String} {quantity : Quantity} {inner items : Alternative}
      (alternates : catalog.Alternates name inner) (nothing : MatchesNothing catalog inner)
      (rest : MatchesNothing catalog items) :
      MatchesNothing catalog (⟨.rule name, quantity⟩ :: items)

/-- An alternative can begin with a terminal. -/
inductive BeginsWith (catalog : Catalog) (token : String) : Alternative → Prop
  | terminal {symbol : Symbol} {quantity : Quantity} {items : Alternative}
      (here : symbol.terminal? = some token) : BeginsWith catalog token (⟨symbol, quantity⟩ :: items)
  | rule {name : String} {quantity : Quantity} {inner items : Alternative}
      (alternates : catalog.Alternates name inner) (first : BeginsWith catalog token inner) :
      BeginsWith catalog token (⟨.rule name, quantity⟩ :: items)
  | behind {item : Item} {items : Alternative} (nothing : MatchesNothing catalog [item])
      (rest : BeginsWith catalog token items) : BeginsWith catalog token (item :: items)

/-- What can be known about a name: that it matches nothing, or begins with a terminal. -/
abbrev Fact := String × Option String

/-- A fact about a name holds of one of its alternatives. -/
def Catalog.Admits (catalog : Catalog) : Fact → Prop
  | (name, none) => ∃ alternative, catalog.Alternates name alternative ∧
      MatchesNothing catalog alternative
  | (name, some token) => ∃ alternative, catalog.Alternates name alternative ∧
      BeginsWith catalog token alternative

/-! ### Productions by name -/

/-- Productions that are those of a catalog, each name once. -/
structure Productions.Of (productions : Productions) (catalog : Catalog) : Prop where
  distinct : (productions.map Prod.fst).Nodup
  mem_iff : ∀ name alternatives, (name, alternatives) ∈ productions ↔
    ∃ production, (name, production) ∈ catalog ∧ alternatives = alternativesOf production

/-- The alternatives of a name are those of the productions read from the catalog. -/
theorem Productions.Of.alternates_iff {productions : Productions} {catalog : Catalog}
    (of : productions.Of catalog) {name : String} {alternative : Alternative} :
    catalog.Alternates name alternative ↔
      ∃ alternatives, (name, alternatives) ∈ productions ∧ alternative ∈ alternatives := by
  constructor
  · rintro ⟨production, alternatives, hMem, reads, hAlternative⟩
    exact ⟨alternatives, (of.mem_iff _ _).mpr ⟨production, hMem, (reads_iff.mp reads).symm⟩, hAlternative⟩
  · rintro ⟨alternatives, hMem, hAlternative⟩
    obtain ⟨production, hProduction, rfl⟩ := (of.mem_iff _ _).mp hMem
    exact ⟨production, _, hProduction, reads_iff.mpr rfl, hAlternative⟩

theorem lookup_map {α β : Type} (f : String → α → β) (entries : List (String × α)) (name : String) :
    (entries.map fun entry => (entry.1, f entry.1 entry.2)).lookup name =
      (entries.lookup name).map (f name) := by
  induction entries with
  | nil => rfl
  | cons entry entries ih =>
    rw [List.map_cons, List.lookup_cons, List.lookup_cons, ih]
    cases hSame : name == entry.1 with
    | false => rfl
    | true =>
      rw [beq_iff_eq.mp hSame]
      rfl

/-- Where each name comes once, no production is left out because of another with its name. -/
theorem Productions.effective_of_distinct {productions : Productions}
    (distinct : (productions.map Prod.fst).Nodup) : productions.effective = productions := by
  suffices hKept : ∀ kept : Productions, ((kept ++ productions).map Prod.fst).Nodup →
      productions.foldl (fun kept entry =>
        if (kept.lookup entry.1).isSome then kept else kept ++ [entry]) kept = kept ++ productions from
    hKept [] distinct
  clear distinct
  induction productions with
  | nil => simp
  | cons entry productions ih =>
    intro kept hDistinct
    have hNew : kept.lookup entry.1 = none := by
      rw [Option.eq_none_iff_forall_ne_some]
      intro alternatives hFound
      have hKept : (kept.map Prod.fst).Nodup := by
        rw [List.map_append] at hDistinct
        exact hDistinct.of_append_left
      have hMem := List.mem_map_of_mem (f := Prod.fst) ((lookup_eq_some_iff hKept).mp hFound)
      rw [List.map_append, List.nodup_append] at hDistinct
      exact hDistinct.2.2 _ hMem entry.1 List.mem_cons_self rfl
    rw [List.foldl_cons, hNew, if_neg (by simp), ih _ (by simpa using hDistinct),
      List.append_assoc, List.singleton_append]

/-- Productions that are read from a catalog are those of the catalog, if its names differ. -/
theorem Productions.of_ofCatalog {catalog : Catalog} (hNames : (catalog.map Prod.fst).Nodup) :
    (Productions.ofCatalog catalog).effective.Of catalog := by
  have hDistinct : ((Productions.ofCatalog catalog).map Prod.fst).Nodup := by
    simpa [ofCatalog, Function.comp_def, List.map_reverse] using hNames
  rw [effective_of_distinct hDistinct]
  refine ⟨hDistinct, fun name alternatives => ?_⟩
  simp only [ofCatalog, List.mem_map, List.mem_reverse, Prod.exists, Prod.mk.injEq]
  constructor
  · rintro ⟨_, production, hMem, rfl, rfl⟩
    exact ⟨production, hMem, rfl⟩
  · rintro ⟨production, hMem, rfl⟩
    exact ⟨name, production, hMem, rfl, rfl⟩

/-! ### One refinement -/

namespace Analysis

variable {productions : Productions} {catalog : Catalog} {analysis other : Analysis}

def Knows (analysis : Analysis) : Fact → Prop
  | (name, none) => name ∈ analysis.nullable
  | (name, some token) => token ∈ analysis.symbolFirst (.rule name)

instance (analysis : Analysis) : DecidablePred analysis.Knows
  | (name, none) => inferInstanceAs (Decidable (name ∈ analysis.nullable))
  | (name, some token) => inferInstanceAs (Decidable (token ∈ analysis.symbolFirst (.rule name)))

theorem not_knows_start (fact : Fact) : ¬ start.Knows fact := by
  obtain ⟨name, _ | token⟩ := fact
  · exact List.not_mem_nil
  · exact List.not_mem_nil

theorem mem_symbolFirst_of_terminal {symbol : Symbol} {token : String}
    (hTerminal : symbol.terminal? = some token) : token ∈ analysis.symbolFirst symbol := by
  cases symbol with
  | rule name => cases hTerminal
  | kind name | delimiter text =>
    cases hTerminal
    exact List.mem_singleton_self _

/-- A token begins an alternative if it begins the first item, or if this item may match nothing and
the token begins the others. -/
theorem mem_firstOf_cons {item : Item} {items : Alternative} {token : String} :
    token ∈ analysis.firstOf (item :: items) ↔
      token ∈ analysis.symbolFirst item.symbol ∨
        analysis.itemNullable item = true ∧ token ∈ analysis.firstOf items := by
  rw [firstOf]
  cases analysis.itemNullable item with
  | false => simp
  | true => simp

/-- A refinement knows of a name what is found of one of its alternatives. -/
theorem knows_refine_none {name : String} :
    (analysis.refine productions).Knows (name, none) ↔
      ∃ alternatives, (name, alternatives) ∈ productions ∧
        ∃ alternative ∈ alternatives, analysis.alternativeNullable alternative = true := by
  suffices hFold : ∀ names : NameSet,
      name ∈ productions.foldl (fun names entry =>
        if entry.2.any analysis.alternativeNullable then NameSet.insert entry.1 names else names)
        names ↔ name ∈ names ∨ ∃ alternatives, (name, alternatives) ∈ productions ∧
          ∃ alternative ∈ alternatives, analysis.alternativeNullable alternative = true by
    simpa [Knows, refine] using hFold []
  induction productions with
  | nil => simp
  | cons entry productions ih =>
    intro names
    obtain ⟨head, first⟩ := entry
    rw [List.foldl_cons, ih]
    simp only [List.mem_cons, Prod.mk.injEq, List.any_eq_true]
    by_cases hAny : ∃ alternative ∈ first, analysis.alternativeNullable alternative = true
    · simp only [hAny, if_true, NameSet.mem_insert]
      grind
    · simp only [hAny, if_false]
      grind

/-- What a refinement has for a name is gathered from the alternatives of its production. -/
theorem lookup_first_refine (name : String) :
    (analysis.refine productions).first.lookup name = (productions.lookup name).map
      fun alternatives => alternatives.foldl
        (fun names alternative => NameSet.union names (analysis.firstOf alternative)) [] :=
  lookup_map (fun _ (alternatives : List Alternative) => alternatives.foldl
    (fun names alternative => NameSet.union names (analysis.firstOf alternative)) []) productions name

/-- A token is in what is gathered from alternatives if it was there before or comes from one of
them. -/
theorem mem_foldl_union {token : String} (names : NameSet) (alternatives : List Alternative) :
    token ∈ alternatives.foldl
        (fun names alternative => NameSet.union names (analysis.firstOf alternative)) names ↔
      token ∈ names ∨ ∃ alternative ∈ alternatives, token ∈ analysis.firstOf alternative := by
  induction alternatives generalizing names with
  | nil => simp
  | cons alternative alternatives ih =>
    rw [List.foldl_cons, ih, NameSet.mem_union]
    simp [or_assoc]

/-- A refinement knows that a name begins with a token if some alternative of it does, as far as was
known before. -/
theorem knows_refine_some (distinct : (productions.map Prod.fst).Nodup) {name token : String} :
    (analysis.refine productions).Knows (name, some token) ↔
      ∃ alternatives, (name, alternatives) ∈ productions ∧
        ∃ alternative ∈ alternatives, token ∈ analysis.firstOf alternative := by
  rw [Knows, symbolFirst, lookup_first_refine]
  cases hLookup : productions.lookup name with
  | none =>
    have hNone : ∀ alternatives, (name, alternatives) ∉ productions := fun alternatives hMem => by
      rw [(lookup_eq_some_iff distinct).mpr hMem] at hLookup
      cases hLookup
    simp [hNone]
  | some alternatives =>
    have hSame : ∀ others, (name, others) ∈ productions ↔ others = alternatives := fun others => by
      rw [← lookup_eq_some_iff distinct, hLookup]
      exact ⟨fun h => (Option.some.inj h).symm, fun h => h ▸ rfl⟩
    simp [mem_foldl_union, hSame]

/-! ### Nothing is lost -/

/-- One analysis knows no more than another. -/
def Below (analysis other : Analysis) : Prop := ∀ fact, analysis.Knows fact → other.Knows fact

namespace Below

theorem symbolFirst (below : analysis.Below other) {symbol : Symbol} {token : String}
    (hToken : token ∈ analysis.symbolFirst symbol) : token ∈ other.symbolFirst symbol := by
  cases symbol with
  | rule name => exact below (name, some token) hToken
  | kind | delimiter => exact hToken

/-- What is known of an item to match nothing is known in any analysis that knows more. -/
theorem itemNullable (below : analysis.Below other) {item : Item}
    (hNullable : analysis.itemNullable item = true) : other.itemNullable item = true := by
  obtain ⟨symbol, quantity⟩ := item
  rw [Analysis.itemNullable, Bool.or_eq_true] at hNullable ⊢
  refine hNullable.imp_right fun hSymbol => ?_
  cases symbol with
  | rule name =>
    exact List.contains_iff_mem.mpr (below (name, none) (List.contains_iff_mem.mp hSymbol))
  | kind | delimiter => cases hSymbol

theorem alternativeNullable (below : analysis.Below other) {alternative : Alternative}
    (hNullable : analysis.alternativeNullable alternative = true) :
    other.alternativeNullable alternative = true := by
  rw [Analysis.alternativeNullable, List.all_eq_true] at hNullable ⊢
  exact fun item hItem => below.itemNullable (hNullable item hItem)

/-- What is known to begin an alternative is known in any analysis that knows more. -/
theorem firstOf (below : analysis.Below other) {alternative : Alternative} {token : String}
    (hToken : token ∈ analysis.firstOf alternative) : token ∈ other.firstOf alternative := by
  induction alternative with
  | nil => exact hToken
  | cons item items ih =>
    rw [mem_firstOf_cons] at hToken ⊢
    rcases hToken with hHere | ⟨hNullable, hBehind⟩
    · exact .inl (below.symbolFirst hHere)
    · exact .inr ⟨below.itemNullable hNullable, ih hBehind⟩

/-- Refining keeps the order between two analyses: the one that knew more still does. -/
theorem refine (distinct : (productions.map Prod.fst).Nodup) (below : analysis.Below other) :
    (analysis.refine productions).Below (other.refine productions) := by
  rintro ⟨name, _ | token⟩ hKnows
  · obtain ⟨alternatives, hMem, alternative, hAlternative, hNullable⟩ := knows_refine_none.mp hKnows
    exact knows_refine_none.mpr
      ⟨alternatives, hMem, alternative, hAlternative, below.alternativeNullable hNullable⟩
  · obtain ⟨alternatives, hMem, alternative, hAlternative, hToken⟩ :=
      (knows_refine_some distinct).mp hKnows
    exact (knows_refine_some distinct).mpr
      ⟨alternatives, hMem, alternative, hAlternative, below.firstOf hToken⟩

end Below

/-! ### What is known determines the analysis -/

theorem ascending_nullable_refine : NameSet.Ascending (analysis.refine productions).nullable := by
  suffices hFold : ∀ names : NameSet, names.Ascending →
      NameSet.Ascending (productions.foldl (fun names entry =>
        if entry.2.any analysis.alternativeNullable then NameSet.insert entry.1 names else names)
        names) from hFold [] List.Pairwise.nil
  induction productions with
  | nil => exact fun _ ascending => ascending
  | cons entry productions ih =>
    intro names ascending
    rw [List.foldl_cons]
    split
    · exact ih _ (ascending.insert _)
    · exact ih _ ascending

theorem ascending_foldl_union {names : NameSet} (ascending : names.Ascending)
    (alternatives : List Alternative) : NameSet.Ascending (alternatives.foldl
      (fun names alternative => NameSet.union names (analysis.firstOf alternative)) names) := by
  induction alternatives generalizing names with
  | nil => exact ascending
  | cons alternative alternatives ih => exact ih (ascending.union _)

/-- Every name of the productions is there, in their order, and all sets of names are ascending. -/
structure Tidy (productions : Productions) (analysis : Analysis) : Prop where
  nullable : NameSet.Ascending analysis.nullable
  names : analysis.first.map Prod.fst = productions.map Prod.fst
  first : ∀ entry ∈ analysis.first, NameSet.Ascending entry.2

namespace Tidy

theorem lookup_first (tidy : analysis.Tidy productions) (distinct : (productions.map Prod.fst).Nodup) :
    analysis.first =
      (productions.map Prod.fst).map fun name => (name, analysis.symbolFirst (.rule name)) := by
  rw [← tidy.names, List.map_map]
  rw [← tidy.names] at distinct
  refine (List.map_id _).symm.trans (List.map_congr_left fun entry hMem => ?_)
  have hLookup := (lookup_eq_some_iff distinct).mpr hMem
  rw [Function.comp_apply, symbolFirst, hLookup]
  rfl

theorem symbolFirst (tidy : analysis.Tidy productions) (distinct : (productions.map Prod.fst).Nodup) :
    NameSet.Ascending (analysis.symbolFirst (.rule name)) := by
  rw [← tidy.names] at distinct
  rw [Analysis.symbolFirst]
  cases hLookup : analysis.first.lookup name with
  | none => exact List.Pairwise.nil
  | some tokens => exact tidy.first _ ((lookup_eq_some_iff distinct).mp hLookup)

/-- Two tidy analyses that know the same are the same, because their sets are in order and without
doubles. -/
theorem eq (tidy : analysis.Tidy productions) (tidy' : other.Tidy productions)
    (distinct : (productions.map Prod.fst).Nodup)
    (hSame : ∀ fact, analysis.Knows fact ↔ other.Knows fact) : analysis = other := by
  have hNullable : analysis.nullable = other.nullable :=
    tidy.nullable.eq tidy'.nullable fun name => hSame (name, none)
  have hFirst : analysis.first = other.first := by
    rw [tidy.lookup_first distinct, tidy'.lookup_first distinct]
    refine List.map_congr_left fun name _ => congrArg (Prod.mk name) ?_
    exact (tidy.symbolFirst distinct).eq (tidy'.symbolFirst distinct) fun token =>
      hSame (name, some token)
  exact congrArg₂ Analysis.mk hNullable hFirst

theorem refine : (analysis.refine productions).Tidy productions where
  nullable := ascending_nullable_refine
  names := by simp [Analysis.refine]
  first := List.forall_mem_map.mpr fun _ _ => ascending_foldl_union List.Pairwise.nil _

end Tidy

/-! ### Nothing new follows in the end -/

def terminals (productions : Productions) : List String :=
  (productions.flatMap fun entry => entry.2.flatten).filterMap (·.symbol.terminal?)

def candidates (productions : Productions) : Finset Fact :=
  (productions.map Prod.fst).toFinset ×ˢ Finset.insertNone (terminals productions).toFinset

/-- There are no more facts to be known than one for each name and each item, and one more for each
name. This bounds the rounds of an analysis. -/
theorem card_candidates_le (productions : Productions) :
    (candidates productions).card ≤ productions.length * (productions.itemCount + 1) := by
  rw [candidates, Finset.card_product, Finset.card_insertNone]
  refine Nat.mul_le_mul ?_ (Nat.succ_le_succ ?_)
  · exact (List.toFinset_card_le _).trans (List.length_map _).le
  · exact (List.toFinset_card_le _).trans (List.length_filterMap_le _ _)

/-- Nothing is known but what there is to be known. -/
def Within (productions : Productions) (analysis : Analysis) : Prop :=
  ∀ fact, analysis.Knows fact → fact ∈ candidates productions

theorem mem_candidates {name : String} {token : Option String} :
    (name, token) ∈ candidates productions ↔
      (∃ alternatives, (name, alternatives) ∈ productions) ∧
        ∀ text ∈ token, text ∈ terminals productions := by
  simp [candidates]

/-- A terminal that an alternative begins with is in it, or known of some name. -/
theorem of_mem_firstOf {alternative : Alternative} {token : String}
    (hToken : token ∈ analysis.firstOf alternative) :
    (∃ item ∈ alternative, item.symbol.terminal? = some token) ∨
      ∃ name, analysis.Knows (name, some token) := by
  induction alternative with
  | nil => cases hToken
  | cons item items ih =>
    rcases mem_firstOf_cons.mp hToken with hHere | ⟨-, hBehind⟩
    · obtain ⟨symbol, quantity⟩ := item
      cases symbol with
      | rule name => exact .inr ⟨name, hHere⟩
      | kind name | delimiter text =>
        rw [List.mem_singleton.mp hHere]
        exact .inl ⟨_, List.mem_cons_self, rfl⟩
    · refine (ih hBehind).imp_left fun ⟨other, hOther, hTerminal⟩ => ?_
      exact ⟨other, List.mem_cons_of_mem _ hOther, hTerminal⟩

/-- A refinement knows nothing but what could be known of its productions. -/
theorem Within.refine (distinct : (productions.map Prod.fst).Nodup)
    (within : analysis.Within productions) : (analysis.refine productions).Within productions := by
  rintro ⟨name, _ | token⟩ hKnows
  · obtain ⟨alternatives, hMem, -⟩ := knows_refine_none.mp hKnows
    exact mem_candidates.mpr ⟨⟨alternatives, hMem⟩, nofun⟩
  · obtain ⟨alternatives, hMem, alternative, hAlternative, hToken⟩ :=
      (knows_refine_some distinct).mp hKnows
    refine mem_candidates.mpr ⟨⟨alternatives, hMem⟩, fun text hText => ?_⟩
    cases hText
    rcases of_mem_firstOf hToken with ⟨item, hItem, hTerminal⟩ | ⟨other, hOther⟩
    · refine List.mem_filterMap.mpr ⟨item, ?_, hTerminal⟩
      exact List.mem_flatMap.mpr ⟨_, hMem, List.mem_flatten.mpr ⟨alternative, hAlternative, hItem⟩⟩
    · exact (mem_candidates.mp (within _ hOther)).2 token rfl

/-- What is known of what there is to be known. -/
def known (productions : Productions) (analysis : Analysis) : Finset Fact :=
  (candidates productions).filter analysis.Knows

/-- An analysis on the way: a refinement loses nothing of it, and nothing is known but what there is
to be known. -/
structure OnTheWay (productions : Productions) (analysis : Analysis) : Prop where
  tidy : analysis.Tidy productions
  below : analysis.Below (analysis.refine productions)
  within : analysis.Within productions

theorem OnTheWay.refine (distinct : (productions.map Prod.fst).Nodup)
    (onTheWay : analysis.OnTheWay productions) : (analysis.refine productions).OnTheWay productions :=
  ⟨.refine, onTheWay.below.refine distinct, onTheWay.within.refine distinct⟩

/-- Of two analyses on the way the later one knows more, unless they are the same. -/
theorem OnTheWay.card_lt (distinct : (productions.map Prod.fst).Nodup)
    (onTheWay : analysis.OnTheWay productions) (onTheWay' : other.OnTheWay productions)
    (below : analysis.Below other) (hChanges : other ≠ analysis) :
    (analysis.known productions).card < (other.known productions).card := by
  refine Finset.card_lt_card (Finset.ssubset_iff_subset_ne.mpr ⟨?_, fun hSame => hChanges ?_⟩)
  · exact Finset.monotone_filter_right _ fun fact _ => below fact
  · refine onTheWay'.tidy.eq onTheWay.tidy distinct fun fact => ⟨fun hKnows => ?_, below fact⟩
    have hMem : fact ∈ other.known productions :=
      Finset.mem_filter.mpr ⟨onTheWay'.within fact hKnows, hKnows⟩
    rw [← hSame] at hMem
    exact (Finset.mem_filter.mp hMem).2

/-- Take a step until it changes nothing, at most so many times. -/
def settleBy (step : Analysis → Analysis) : Nat → Analysis → Analysis
  | 0, analysis => analysis
  | bound + 1, analysis =>
    let next := step analysis
    if next = analysis then analysis else settleBy step bound next

theorem settle_eq (bound : Nat) (analysis : Analysis) :
    settle productions bound analysis = settleBy (Analysis.refine productions) bound analysis := by
  induction bound generalizing analysis with
  | zero => rfl
  | succ bound ih =>
    rw [settle, settleBy, ih]

/-- A step that stays on the way and loses nothing comes to an end: given as many steps as there is
to be known, it changes nothing any more. What else it keeps holds of that end. -/
theorem settleBy_spec (distinct : (productions.map Prod.fst).Nodup) {step : Analysis → Analysis}
    {Kept : Analysis → Prop} (hWay : ∀ {analysis}, Kept analysis → analysis.OnTheWay productions)
    (hStep : ∀ {analysis}, Kept analysis → Kept (step analysis) ∧ analysis.Below (step analysis))
    {bound : Nat} (kept : Kept analysis)
    (hBound : (candidates productions).card < bound + (analysis.known productions).card) :
    Kept (settleBy step bound analysis) ∧
      step (settleBy step bound analysis) = settleBy step bound analysis := by
  induction bound generalizing analysis with
  | zero =>
    have hAll := Finset.card_le_card (Finset.filter_subset analysis.Knows (candidates productions))
    rw [Nat.zero_add] at hBound
    exact absurd hAll (Nat.not_le.mpr hBound)
  | succ bound ih =>
    rw [settleBy]
    by_cases hSame : step analysis = analysis
    · rw [if_pos hSame]
      exact ⟨kept, hSame⟩
    · rw [if_neg hSame]
      obtain ⟨hNext, below⟩ := hStep kept
      refine ih hNext ?_
      have hMore := (hWay kept).card_lt distinct (hWay hNext) below hSame
      omega

/-- The rounds of an analysis are enough: one more would not add anything to it. -/
theorem refine_analyse (distinct : (productions.map Prod.fst).Nodup) :
    productions.analyse.refine productions = productions.analyse := by
  have hFirst : start.Below (start.refine productions) := fun fact hKnows =>
    absurd hKnows (not_knows_start fact)
  have onTheWay : (start.refine productions).OnTheWay productions :=
    ⟨.refine, hFirst.refine distinct,
      Within.refine distinct fun fact hKnows => absurd hKnows (not_knows_start fact)⟩
  have hCard := card_candidates_le productions
  have hBound : (productions.length + 1) * (productions.itemCount + 2) =
      productions.length * (productions.itemCount + 1) + productions.length +
        productions.itemCount + 1 + 1 := by ring
  rw [Productions.analyse, hBound, settle]
  by_cases hSame : start.refine productions = start
  · rw [if_pos hSame, hSame]
  · rw [if_neg hSame, settle_eq]
    exact (settleBy_spec distinct id (fun onTheWay => ⟨onTheWay.refine distinct, onTheWay.below⟩)
      onTheWay (by omega)).2

/-! ### What is known holds -/

/-- Whatever is known holds. -/
def Sound (catalog : Catalog) (analysis : Analysis) : Prop :=
  ∀ fact, analysis.Knows fact → catalog.Admits fact

namespace Sound

/-- What a sound analysis takes to match nothing does match nothing. -/
theorem matchesNothing (sound : analysis.Sound catalog) {alternative : Alternative}
    (hNullable : analysis.alternativeNullable alternative = true) :
    MatchesNothing catalog alternative := by
  induction alternative with
  | nil => exact .nil
  | cons item items ih =>
    rw [alternativeNullable, List.all_cons, Bool.and_eq_true, itemNullable, Bool.or_eq_true] at hNullable
    have hRest := ih hNullable.2
    rcases hNullable.1 with hAbsent | hSymbol
    · exact .absent hAbsent hRest
    · obtain ⟨symbol, quantity⟩ := item
      cases symbol with
      | rule name =>
        obtain ⟨inner, hInner, hNothing⟩ := sound (name, none) (List.contains_iff_mem.mp hSymbol)
        exact .rule hInner hNothing hRest
      | kind | delimiter => cases hSymbol

/-- What a sound analysis takes to begin an alternative does begin it. -/
theorem beginsWith (sound : analysis.Sound catalog) {alternative : Alternative} {token : String}
    (hToken : token ∈ analysis.firstOf alternative) : BeginsWith catalog token alternative := by
  induction alternative with
  | nil => cases hToken
  | cons item items ih =>
    rcases mem_firstOf_cons.mp hToken with hHere | ⟨hNullable, hBehind⟩
    · obtain ⟨symbol, quantity⟩ := item
      cases symbol with
      | rule name =>
        obtain ⟨inner, hInner, hFirst⟩ := sound (name, some token) hHere
        exact .rule hInner hFirst
      | kind name | delimiter text =>
        rw [List.mem_singleton.mp hHere]
        exact .terminal rfl
    · exact .behind (sound.matchesNothing (by simp [alternativeNullable, hNullable])) (ih hBehind)

theorem refine (of : productions.Of catalog) (sound : analysis.Sound catalog) :
    (analysis.refine productions).Sound catalog := by
  rintro ⟨name, _ | token⟩ hKnows
  · obtain ⟨alternatives, hMem, alternative, hAlternative, hNullable⟩ := knows_refine_none.mp hKnows
    exact ⟨alternative, of.alternates_iff.mpr ⟨alternatives, hMem, hAlternative⟩,
      sound.matchesNothing hNullable⟩
  · obtain ⟨alternatives, hMem, alternative, hAlternative, hToken⟩ :=
      (knows_refine_some of.distinct).mp hKnows
    exact ⟨alternative, of.alternates_iff.mpr ⟨alternatives, hMem, hAlternative⟩,
      sound.beginsWith hToken⟩

/-- Any number of rounds leaves a sound analysis sound. -/
theorem settle (of : productions.Of catalog) (sound : analysis.Sound catalog) (bound : Nat) :
    (Analysis.settle productions bound analysis).Sound catalog := by
  induction bound generalizing analysis with
  | zero => exact sound
  | succ bound ih =>
    rw [Analysis.settle]
    split
    · exact sound
    · exact ih (sound.refine of)

end Sound

/-! ### What holds is known -/

/-- An analysis that a refinement adds nothing to. -/
def Settled (productions : Productions) (analysis : Analysis) : Prop :=
  analysis.refine productions = analysis

namespace Settled

/-- A settled analysis knows of every alternative that matches nothing. The induction is on how it
comes to match nothing. -/
theorem alternativeNullable (settled : analysis.Settled productions) (of : productions.Of catalog)
    {alternative : Alternative} (hNothing : MatchesNothing catalog alternative) :
    analysis.alternativeNullable alternative = true := by
  induction hNothing with
  | nil => rfl
  | absent hAbsent _ ih =>
    rw [Analysis.alternativeNullable, List.all_cons, itemNullable, hAbsent]
    exact ih
  | @rule name quantity inner items hInner _ _ ihInner ihRest =>
    obtain ⟨alternatives, hMem, hAlternative⟩ := of.alternates_iff.mp hInner
    have hKnows : analysis.Knows (name, none) := by
      rw [← settled]
      exact knows_refine_none.mpr ⟨alternatives, hMem, inner, hAlternative, ihInner⟩
    have hHere : analysis.itemNullable ⟨.rule name, quantity⟩ = true :=
      Bool.or_eq_true_iff.mpr (.inr (List.contains_iff_mem.mpr hKnows))
    rw [Analysis.alternativeNullable, List.all_cons, hHere]
    exact ihRest

/-- A settled analysis knows of every token that begins an alternative. The induction is on how the
token comes to begin it. -/
theorem mem_firstOf (settled : analysis.Settled productions) (of : productions.Of catalog)
    {alternative : Alternative} {token : String} (hBegins : BeginsWith catalog token alternative) :
    token ∈ analysis.firstOf alternative := by
  induction hBegins with
  | terminal hHere => exact mem_firstOf_cons.mpr (.inl (mem_symbolFirst_of_terminal hHere))
  | @rule name quantity inner items hInner _ ih =>
    obtain ⟨alternatives, hMem, hAlternative⟩ := of.alternates_iff.mp hInner
    have hKnows : analysis.Knows (name, some token) := by
      rw [← settled]
      exact (knows_refine_some of.distinct).mpr ⟨alternatives, hMem, inner, hAlternative, ih⟩
    exact mem_firstOf_cons.mpr (.inl hKnows)
  | behind hNothing _ ih =>
    have hNullable := settled.alternativeNullable of hNothing
    rw [Analysis.alternativeNullable, List.all_cons, List.all_nil, Bool.and_true] at hNullable
    exact mem_firstOf_cons.mpr (.inr ⟨hNullable, ih⟩)

end Settled

/-- The alternatives that an analysis finds can match nothing are those that can. -/
theorem alternativeNullable_analyse_iff (of : productions.Of catalog) {alternative : Alternative} :
    productions.analyse.alternativeNullable alternative = true ↔ MatchesNothing catalog alternative := by
  have sound : productions.analyse.Sound catalog :=
    Sound.settle of (fun fact hKnows => absurd hKnows (not_knows_start fact)) _
  have settled : productions.analyse.Settled productions := refine_analyse of.distinct
  exact ⟨sound.matchesNothing, settled.alternativeNullable of⟩

/-- The terminals that an analysis finds an alternative can begin with are those that it can. -/
theorem mem_firstOf_analyse_iff (of : productions.Of catalog) {alternative : Alternative}
    {token : String} :
    token ∈ productions.analyse.firstOf alternative ↔ BeginsWith catalog token alternative := by
  have sound : productions.analyse.Sound catalog :=
    Sound.settle of (fun fact hKnows => absurd hKnows (not_knows_start fact)) _
  have settled : productions.analyse.Settled productions := refine_analyse of.distinct
  exact ⟨sound.beginsWith, settled.mem_firstOf of⟩

end Analysis

end DocumentLanguage
