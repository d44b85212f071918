import DocumentLanguage.Proofs.Grammar.Sweep

/-!
The conflicts of a catalog. An alternative is one token through a chain of rules no longer than
there are names, so that looking through so many rules tells of each whether it is. What is reported
of a catalog is then every conflict there is in it, once, rule by rule and alternative by
alternative.
-/
namespace DocumentLanguage

/-- An alternative is always exactly one token. -/
inductive OneToken (catalog : Catalog) : Alternative → Prop
  | terminal {symbol : Symbol} {token : String} (here : symbol.terminal? = some token) :
      OneToken catalog [⟨symbol, .one⟩]
  | rule {name production : String} {alternatives : List Alternative}
      (named : (name, production) ∈ catalog) (reads : Reads production alternatives)
      (all : ∀ alternative ∈ alternatives, OneToken catalog alternative) :
      OneToken catalog [⟨.rule name, .one⟩]

namespace Productions

variable {productions : Productions} {catalog : Catalog}

/-- The names of which every alternative is found to be one token, looking through so many rules
with the name itself. -/
def oneTokenNames (productions : Productions) : Nat → Finset String
  | 0 => ∅
  | bound + 1 => (productions.map Prod.fst).toFinset.filter fun name =>
      (productions.alternatives name).all (singleToken productions bound) = true

theorem singleToken_terminal {symbol : Symbol} {token : String} (hTerminal : symbol.terminal? = some token)
    (bound : Nat) : singleToken productions bound [⟨symbol, .one⟩] = true := by
  cases symbol with
  | rule name => cases hTerminal
  | kind | delimiter => cases bound <;> rfl

/-- A rule by itself is a single token if its name is among those found within the bound. -/
theorem singleToken_rule (name : String) (bound : Nat) :
    singleToken productions bound [⟨.rule name, .one⟩] = true ↔
      name ∈ productions.oneTokenNames bound := by
  cases bound with
  | zero => simp [singleToken, oneTokenNames]
  | succ bound =>
    have hDefined : name ∈ productions.map Prod.fst ↔ (productions.lookup name).isSome := by
      simp only [List.lookup_isSome_iff, List.mem_map, beq_iff_eq]
      exact exists_congr fun _ => and_congr_right' eq_comm
    rw [oneTokenNames, Finset.mem_filter, List.mem_toFinset, hDefined, alternatives, singleToken]
    cases productions.lookup name with
    | none => simp
    | some alternatives => simp

/-- An alternative is found to be one token if it is a terminal, or a name that is found to be. -/
theorem singleToken_iff {bound : Nat} {alternative : Alternative} :
    singleToken productions bound alternative = true ↔
      ∃ symbol, alternative = [⟨symbol, .one⟩] ∧ ((∃ token, symbol.terminal? = some token) ∨
        ∃ name ∈ productions.oneTokenNames bound, symbol = .rule name) := by
  constructor
  · intro hSingle
    rcases alternative with _ | ⟨⟨symbol, quantity⟩, _ | ⟨other, items⟩⟩
    · simp [singleToken] at hSingle
    · cases quantity with
      | one =>
        refine ⟨symbol, rfl, ?_⟩
        cases symbol with
        | rule name => exact .inr ⟨name, (singleToken_rule name bound).mp hSingle, rfl⟩
        | kind name | delimiter text => exact .inl ⟨_, rfl⟩
      | atMostOne | many | atLeastOne => simp [singleToken] at hSingle
    · simp [singleToken] at hSingle
  · rintro ⟨symbol, rfl, ⟨token, hTerminal⟩ | ⟨name, hName, rfl⟩⟩
    · exact singleToken_terminal hTerminal bound
    · exact (singleToken_rule name bound).mpr hName

/-- What is a single token by some names is one by any more of them. -/
theorem singleToken_mono {bound more : Nat}
    (hNames : productions.oneTokenNames bound ⊆ productions.oneTokenNames more)
    {alternative : Alternative} (hSingle : singleToken productions bound alternative = true) :
    singleToken productions more alternative = true := by
  obtain ⟨symbol, rfl, hSymbol⟩ := singleToken_iff.mp hSingle
  refine singleToken_iff.mpr ⟨symbol, rfl, hSymbol.imp_right ?_⟩
  rintro ⟨name, hName, rfl⟩
  exact ⟨name, hNames hName, rfl⟩

/-- What is found one rule deeper is determined by what was found before. -/
theorem oneTokenNames_mono {bound more : Nat}
    (hNames : productions.oneTokenNames bound ⊆ productions.oneTokenNames more) :
    productions.oneTokenNames (bound + 1) ⊆ productions.oneTokenNames (more + 1) := by
  intro name hName
  rw [oneTokenNames, Finset.mem_filter, List.all_eq_true] at hName ⊢
  exact ⟨hName.1, fun alternative hAlternative =>
    singleToken_mono hNames (hName.2 alternative hAlternative)⟩

theorem oneTokenNames_subset_succ (bound : Nat) :
    productions.oneTokenNames bound ⊆ productions.oneTokenNames (bound + 1) := by
  induction bound with
  | zero => exact Finset.empty_subset _
  | succ bound ih => exact oneTokenNames_mono ih

/-- Each rule deeper finds another name, or nothing new is found from there on. -/
theorem le_card_oneTokenNames (bound : Nat) :
    bound ≤ (productions.oneTokenNames bound).card ∨
      productions.oneTokenNames (bound + 1) = productions.oneTokenNames bound := by
  induction bound with
  | zero => exact .inl (Nat.zero_le _)
  | succ bound ih =>
    rcases eq_or_ne (productions.oneTokenNames (bound + 1)) (productions.oneTokenNames bound)
      with hSame | hMore
    · exact .inr ((oneTokenNames_mono hSame.subset).antisymm (oneTokenNames_subset_succ _))
    · rcases ih with hLe | hSame
      · have hLess := Finset.card_lt_card
          (Finset.ssubset_iff_subset_ne.mpr ⟨oneTokenNames_subset_succ bound, hMore.symm⟩)
        exact .inl (by omega)
      · exact absurd hSame hMore

/-- Looking through as many rules as there are names is enough, because each round before the last
one finds a name that was not found before. -/
theorem oneTokenNames_succ_length :
    productions.oneTokenNames (productions.length + 1) =
      productions.oneTokenNames productions.length := by
  rcases le_card_oneTokenNames productions.length with hAll | hSame
  · have hNames : ∀ bound, productions.oneTokenNames bound ⊆ (productions.map Prod.fst).toFinset := by
      intro bound
      cases bound with
      | zero => exact Finset.empty_subset _
      | succ bound => exact Finset.filter_subset _ _
    have hCard : (productions.map Prod.fst).toFinset.card ≤ productions.length :=
      (List.toFinset_card_le _).trans (List.length_map _).le
    have hEvery := Finset.eq_of_subset_of_card_le (hNames productions.length) (hCard.trans hAll)
    exact ((hNames _).trans hEvery.symm.subset).antisymm (oneTokenNames_subset_succ _)
  · exact hSame

variable (of : productions.Of catalog)

include of in
theorem Of.alternatives_eq {name production : String} (hMem : (name, production) ∈ catalog) :
    productions.alternatives name = alternativesOf production := by
  have hLookup := (lookup_eq_some_iff of.distinct).mpr ((of.mem_iff name _).mpr ⟨production, hMem, rfl⟩)
  rw [alternatives, hLookup, Option.getD_some]

include of in
/-- What is found to be a single token within a bound is one. -/
theorem Of.oneToken {bound : Nat} {alternative : Alternative}
    (hSingle : singleToken productions bound alternative = true) : OneToken catalog alternative := by
  induction bound generalizing alternative with
  | zero =>
    obtain ⟨symbol, rfl, ⟨token, hTerminal⟩ | ⟨name, hName, -⟩⟩ := singleToken_iff.mp hSingle
    · exact .terminal hTerminal
    · cases hName
  | succ bound ih =>
    obtain ⟨symbol, rfl, ⟨token, hTerminal⟩ | ⟨name, hName, rfl⟩⟩ := singleToken_iff.mp hSingle
    · exact .terminal hTerminal
    · rw [oneTokenNames, Finset.mem_filter, List.mem_toFinset, List.all_eq_true] at hName
      obtain ⟨⟨_, alternatives⟩, hMem, rfl⟩ := List.mem_map.mp hName.1
      obtain ⟨production, hProduction, -⟩ := (of.mem_iff _ _).mp hMem
      refine .rule hProduction (reads_iff.mpr rfl) fun alternative hAlternative =>
        ih (hName.2 alternative ?_)
      rwa [of.alternatives_eq hProduction]

include of in
/-- The alternatives that are found to be one token are those that are. -/
theorem Of.singleToken_iff {alternative : Alternative} :
    singleToken productions productions.length alternative = true ↔ OneToken catalog alternative := by
  refine ⟨of.oneToken, fun hOne => ?_⟩
  induction hOne with
  | terminal hHere => exact singleToken_terminal hHere _
  | @rule name production alternatives hMem reads _ ih =>
    obtain rfl := reads_iff.mp reads
    rw [singleToken_rule, ← oneTokenNames_succ_length, oneTokenNames, Finset.mem_filter,
      List.mem_toFinset, of.alternatives_eq hMem, List.all_eq_true]
    exact ⟨List.mem_map_of_mem ((of.mem_iff name _).mpr ⟨production, hMem, rfl⟩), ih⟩

end Productions

/-! ### The conflicts there are -/

namespace Conflict

/-- There is a conflict in a catalog. Alternatives are counted as the production of the name means
them. -/
def Holds (catalog : Catalog) : Conflict → Prop
  | emptyNotLast name index => ∃ production alternatives alternative, (name, production) ∈ catalog ∧
      Reads production alternatives ∧ alternatives[index]? = some alternative ∧
      index + 1 < alternatives.length ∧ MatchesNothing catalog alternative
  | shadowed name index later tokens => ∃ production alternatives alternative other,
      (name, production) ∈ catalog ∧ Reads production alternatives ∧
      alternatives[index]? = some alternative ∧ alternatives[later]? = some other ∧ index < later ∧
      OneToken catalog alternative ∧ tokens ≠ [] ∧ tokens.Pairwise (· < ·) ∧
      ∀ token, token ∈ tokens ↔
        BeginsWith catalog token alternative ∧ BeginsWith catalog token other

def rule : Conflict → String
  | shadowed rule _ _ _ | emptyNotLast rule _ => rule

def earlier : Conflict → Nat
  | shadowed _ earlier _ _ | emptyNotLast _ earlier => earlier

/-- Which of the alternatives it shadows. One that can match nothing comes before all that it
shadows. -/
def later : Conflict → Nat
  | shadowed _ _ later _ => later
  | emptyNotLast _ _ => 0

/-- One conflict comes before another in the order of the names and their alternatives. -/
def Precedes (names : List String) (first second : Conflict) : Prop :=
  names.idxOf first.rule < names.idxOf second.rule ∨ first.rule = second.rule ∧
    (first.earlier < second.earlier ∨ first.earlier = second.earlier ∧ first.later < second.later)

end Conflict

section

variable {productions : Productions} {catalog : Catalog} {analysis : Analysis} {conflict : Conflict}

/-- A conflict of shadowing is reported of a later alternative that shares a token with an earlier
one, by name and by both numbers. -/
theorem mem_shadowing {name : String} {index later : Nat} {first : NameSet}
    {alternatives : List Alternative} :
    conflict ∈ shadowing analysis name index first later alternatives ↔
      ∃ behind alternative, alternatives[behind]? = some alternative ∧
        first.inter (analysis.firstOf alternative) ≠ [] ∧
        conflict = .shadowed name index (later + behind)
          (first.inter (analysis.firstOf alternative)) := by
  induction alternatives generalizing later with
  | nil => simp [shadowing]
  | cons alternative alternatives ih =>
    have hHere : conflict ∈ shadowing analysis name index first later (alternative :: alternatives) ↔
        first.inter (analysis.firstOf alternative) ≠ [] ∧
          conflict = .shadowed name index later (first.inter (analysis.firstOf alternative)) ∨
        conflict ∈ shadowing analysis name index first (later + 1) alternatives := by
      rw [shadowing]
      split <;> simp_all
    rw [hHere, ih]
    constructor
    · rintro (⟨hSome, rfl⟩ | ⟨behind, other, hOther, hSome, rfl⟩)
      · exact ⟨0, alternative, rfl, hSome, rfl⟩
      · exact ⟨behind + 1, other, hOther, hSome, by rw [Nat.add_assoc, Nat.add_comm 1]⟩
    · rintro ⟨_ | behind, other, hOther, hSome, rfl⟩
      · cases hOther
        exact .inl ⟨hSome, rfl⟩
      · exact .inr ⟨behind, other, hOther, hSome, by rw [Nat.add_assoc, Nat.add_comm 1]⟩

def conflictsAt (productions : Productions) (analysis : Analysis) (name : String) (index : Nat)
    (alternative : Alternative) (alternatives : List Alternative) : List Conflict :=
  (if !alternatives.isEmpty && analysis.alternativeNullable alternative then
    [.emptyNotLast name index] else []) ++
  if singleToken productions productions.length alternative then
    shadowing analysis name index (analysis.firstOf alternative) (index + 1) alternatives else []

theorem mem_conflictsAt {name : String} {index : Nat} {alternative : Alternative}
    {alternatives : List Alternative} :
    conflict ∈ conflictsAt productions analysis name index alternative alternatives ↔
      (alternatives ≠ [] ∧ analysis.alternativeNullable alternative = true) ∧
          conflict = .emptyNotLast name index ∨
        singleToken productions productions.length alternative = true ∧
          conflict ∈ shadowing analysis name index (analysis.firstOf alternative) (index + 1)
            alternatives := by
  rw [conflictsAt, List.mem_append]
  refine or_congr ?_ ?_
  · split <;> simp_all
  · split <;> simp_all

theorem conflictsFrom_cons (name : String) (index : Nat) (alternative : Alternative)
    (alternatives : List Alternative) :
    conflictsFrom productions analysis name index (alternative :: alternatives) =
      conflictsAt productions analysis name index alternative alternatives ++
        conflictsFrom productions analysis name (index + 1) alternatives := rfl

/-- A conflict is reported of alternatives if it is reported at one of them, with those that come
later. -/
theorem mem_conflictsFrom {name : String} {index : Nat} {alternatives : List Alternative} :
    conflict ∈ conflictsFrom productions analysis name index alternatives ↔
      ∃ behind alternative, alternatives[behind]? = some alternative ∧
        conflict ∈ conflictsAt productions analysis name (index + behind) alternative
          (alternatives.drop (behind + 1)) := by
  induction alternatives generalizing index with
  | nil => simp [conflictsFrom]
  | cons alternative alternatives ih =>
    rw [conflictsFrom_cons, List.mem_append, ih]
    constructor
    · rintro (hHere | ⟨behind, other, hOther, hThere⟩)
      · exact ⟨0, alternative, rfl, hHere⟩
      · refine ⟨behind + 1, other, hOther, ?_⟩
        rwa [Nat.add_assoc, Nat.add_comm 1] at hThere
    · rintro ⟨_ | behind, other, hOther, hThere⟩
      · cases hOther
        exact .inl hThere
      · refine .inr ⟨behind, other, hOther, ?_⟩
        rwa [Nat.add_assoc, Nat.add_comm 1]

/-! ### Their order -/

theorem of_mem_conflictsAt {name : String} {index : Nat} {alternative : Alternative}
    {alternatives : List Alternative}
    (hMem : conflict ∈ conflictsAt productions analysis name index alternative alternatives) :
    conflict.rule = name ∧ conflict.earlier = index := by
  rcases mem_conflictsAt.mp hMem with ⟨-, rfl⟩ | ⟨-, hShadowed⟩
  · exact ⟨rfl, rfl⟩
  · obtain ⟨_, _, -, -, rfl⟩ := mem_shadowing.mp hShadowed
    exact ⟨rfl, rfl⟩

/-- The conflicts of one alternative with later ones come in the order of those. -/
theorem pairwise_shadowing (names : List String) {name : String} {index later : Nat} {first : NameSet}
    {alternatives : List Alternative} :
    (shadowing analysis name index first later alternatives).Pairwise (Conflict.Precedes names) := by
  induction alternatives generalizing later with
  | nil => exact List.Pairwise.nil
  | cons alternative alternatives ih =>
    rw [shadowing]
    split
    · exact ih
    · refine List.pairwise_cons.mpr ⟨fun other hOther => ?_, ih⟩
      obtain ⟨behind, _, -, -, rfl⟩ := mem_shadowing.mp hOther
      exact .inr ⟨rfl, .inr ⟨rfl, by simp only [Conflict.later]; omega⟩⟩

/-- At one alternative the conflict of its own comes before those with later ones. -/
theorem pairwise_conflictsAt (names : List String) {name : String} {index : Nat}
    {alternative : Alternative} {alternatives : List Alternative} :
    (conflictsAt productions analysis name index alternative alternatives).Pairwise
      (Conflict.Precedes names) := by
  rw [conflictsAt, List.pairwise_append]
  refine ⟨?_, ?_, fun empty hEmpty other hOther => ?_⟩
  · split
    · exact List.pairwise_singleton _ _
    · exact List.Pairwise.nil
  · split
    · exact pairwise_shadowing names
    · exact List.Pairwise.nil
  · split at hEmpty
    · split at hOther
      · rw [List.mem_singleton.mp hEmpty]
        obtain ⟨behind, _, -, -, rfl⟩ := mem_shadowing.mp hOther
        exact .inr ⟨rfl, .inr ⟨rfl, by simp only [Conflict.later]; omega⟩⟩
      · cases hOther
    · cases hEmpty

/-- The conflicts of one name come in the order of its alternatives. -/
theorem pairwise_conflictsFrom (names : List String) {name : String} {index : Nat}
    {alternatives : List Alternative} :
    (conflictsFrom productions analysis name index alternatives).Pairwise
      (Conflict.Precedes names) := by
  induction alternatives generalizing index with
  | nil => exact List.Pairwise.nil
  | cons alternative alternatives ih =>
    rw [conflictsFrom_cons, List.pairwise_append]
    refine ⟨pairwise_conflictsAt names, ih, fun first hFirst second hSecond => ?_⟩
    obtain ⟨hRule, hEarlier⟩ := of_mem_conflictsAt hFirst
    obtain ⟨behind, _, -, hThere⟩ := mem_conflictsFrom.mp hSecond
    obtain ⟨hRule', hEarlier'⟩ := of_mem_conflictsAt hThere
    exact .inr ⟨hRule.trans hRule'.symm, .inl (by omega)⟩

/-! ### Every conflict is reported -/

theorem ascending_symbolFirst_refine {symbol : Symbol} :
    NameSet.Ascending ((analysis.refine productions).symbolFirst symbol) := by
  cases symbol with
  | rule name =>
    rw [Analysis.symbolFirst, Analysis.lookup_first_refine]
    cases productions.lookup name with
    | none => exact List.Pairwise.nil
    | some alternatives => exact Analysis.ascending_foldl_union List.Pairwise.nil alternatives
  | kind | delimiter => exact List.pairwise_singleton _ _

theorem ascending_firstOf_refine (alternative : Alternative) :
    NameSet.Ascending ((analysis.refine productions).firstOf alternative) := by
  cases alternative with
  | nil => exact List.Pairwise.nil
  | cons item items =>
    rw [Analysis.firstOf]
    split
    · exact ascending_symbolFirst_refine.union _
    · exact ascending_symbolFirst_refine

theorem Productions.Of.ascending_firstOf (of : productions.Of catalog) (alternative : Alternative) :
    NameSet.Ascending (productions.analyse.firstOf alternative) := by
  rw [← Analysis.refine_analyse of.distinct]
  exact ascending_firstOf_refine alternative

/-- What is reported of a name holds of it, by the soundness of the analysis that it is read off
from. -/
theorem Productions.Of.holds_of_mem (of : productions.Of catalog) {name production : String}
    (hMem : (name, production) ∈ catalog)
    (hConflict : conflict ∈ conflictsFrom productions productions.analyse name 0
      (alternativesOf production)) : conflict.Holds catalog := by
  obtain ⟨index, alternative, hAlternative, hThere⟩ := mem_conflictsFrom.mp hConflict
  rw [Nat.zero_add] at hThere
  rcases mem_conflictsAt.mp hThere with ⟨⟨hMore, hNullable⟩, rfl⟩ | ⟨hSingle, hShadowed⟩
  · have hLess : index + 1 < (alternativesOf production).length := by
      simpa using hMore
    exact ⟨production, _, alternative, hMem, reads_iff.mpr rfl, hAlternative, hLess,
      (Analysis.alternativeNullable_analyse_iff of).mp hNullable⟩
  · obtain ⟨behind, other, hOther, hSome, rfl⟩ := mem_shadowing.mp hShadowed
    rw [List.getElem?_drop] at hOther
    refine ⟨production, _, alternative, other, hMem, reads_iff.mpr rfl, hAlternative, hOther, by omega,
      of.singleToken_iff.mp hSingle, hSome, (of.ascending_firstOf alternative).inter _, ?_⟩
    intro token
    rw [NameSet.mem_inter, Analysis.mem_firstOf_analyse_iff of, Analysis.mem_firstOf_analyse_iff of]

/-- What holds of a name is reported of it, as the analysis is settled and misses nothing. -/
theorem Productions.Of.mem_of_holds (of : productions.Of catalog) (holds : conflict.Holds catalog) :
    ∃ production, (conflict.rule, production) ∈ catalog ∧
      conflict ∈ conflictsFrom productions productions.analyse conflict.rule 0
        (alternativesOf production) := by
  cases conflict with
  | emptyNotLast name index =>
    obtain ⟨production, alternatives, alternative, hMem, reads, hAlternative, hLess, hNothing⟩ := holds
    obtain rfl := reads_iff.mp reads
    refine ⟨production, hMem, mem_conflictsFrom.mpr ⟨index, alternative, hAlternative, ?_⟩⟩
    refine mem_conflictsAt.mpr (.inl ⟨⟨?_, ?_⟩, by rw [Nat.zero_add]; rfl⟩)
    · simpa using hLess
    · exact (Analysis.alternativeNullable_analyse_iff of).mpr hNothing
  | shadowed name index later tokens =>
    obtain ⟨production, alternatives, alternative, other, hMem, reads, hAlternative, hOther, hLess, hOne,
      hSome, ascending, hTokens⟩ := holds
    obtain rfl := reads_iff.mp reads
    have hSame : tokens = (productions.analyse.firstOf alternative).inter
        (productions.analyse.firstOf other) := by
      refine NameSet.Ascending.eq ascending ((of.ascending_firstOf alternative).inter _) fun token => ?_
      rw [hTokens, NameSet.mem_inter, Analysis.mem_firstOf_analyse_iff of,
        Analysis.mem_firstOf_analyse_iff of]
    obtain ⟨behind, rfl⟩ : ∃ behind, later = index + 1 + behind := Nat.exists_eq_add_of_le hLess
    refine ⟨production, hMem, mem_conflictsFrom.mpr ⟨index, alternative, hAlternative, ?_⟩⟩
    refine mem_conflictsAt.mpr (.inr ⟨of.singleToken_iff.mpr hOne, mem_shadowing.mpr ?_⟩)
    refine ⟨behind, other, by rw [List.getElem?_drop, hOther], hSame ▸ hSome, ?_⟩
    rw [hSame, Nat.zero_add]
    rfl

end

/-- Where each name comes once, the analysis of a catalog comes to an end at which nothing new
follows, and what is reported is every conflict there is, once, in the order of the names and of
their alternatives. Visiting the rules in place, in any order, until a sweep over them changes
nothing comes to an end too, and to the same analysis. -/
theorem conflictsIn_exact {catalog : Catalog} (hNames : (catalog.map Prod.fst).Nodup) :
    (Productions.ofCatalog catalog).effective.analyse.refine (Productions.ofCatalog catalog).effective =
        (Productions.ofCatalog catalog).effective.analyse ∧
      (∀ conflict, conflict ∈ conflictsIn catalog ↔ conflict.Holds catalog) ∧
      (conflictsIn catalog).Pairwise (Conflict.Precedes (catalog.map Prod.fst)) ∧
      ∀ order : Productions, order.Perm (Productions.ofCatalog catalog).effective →
        ((Productions.ofCatalog catalog).effective.sweeps order).sweep order =
            (Productions.ofCatalog catalog).effective.sweeps order ∧
          (Productions.ofCatalog catalog).effective.sweeps order =
            (Productions.ofCatalog catalog).effective.analyse := by
  have of := Productions.of_ofCatalog hNames
  refine ⟨Analysis.refine_analyse of.distinct, fun conflict => ?_, ?_, fun order hOrder =>
    Analysis.sweeps_eq_analyse of hOrder⟩
  · rw [conflictsIn, List.mem_flatMap]
    constructor
    · rintro ⟨⟨name, production⟩, hMem, hConflict⟩
      rw [of.alternatives_eq hMem] at hConflict
      exact of.holds_of_mem hMem hConflict
    · intro holds
      obtain ⟨production, hMem, hConflict⟩ := of.mem_of_holds holds
      exact ⟨_, hMem, by rwa [of.alternatives_eq hMem]⟩
  · rw [conflictsIn, List.pairwise_flatMap]
    refine ⟨fun entry _ => pairwise_conflictsFrom _, List.pairwise_iff_getElem.mpr ?_⟩
    intro i j hi hj hLess first hFirst second hSecond
    obtain ⟨_, _, -, hFirst⟩ := mem_conflictsFrom.mp hFirst
    obtain ⟨_, _, -, hSecond⟩ := mem_conflictsFrom.mp hSecond
    have hPlace : ∀ index (hIndex : index < catalog.length),
        (catalog.map Prod.fst).idxOf catalog[index].1 = index := fun index hIndex => by
      have hName := hNames.idxOf_getElem index (by simpa using hIndex)
      rwa [List.getElem_map] at hName
    refine .inl ?_
    rwa [(of_mem_conflictsAt hFirst).1, (of_mem_conflictsAt hSecond).1, hPlace i hi, hPlace j hj]

/-- A rule that is undefined and one that calls itself are in a catalog, and a token before a rule
that can begin with it. -/
theorem conflictsIn_exact_recursive :
    let catalog : Catalog := [("Value", "digits | Sum | Missing"), ("Sum", "Value? sign Sum | digits")]
    (catalog.map Prod.fst).Nodup ∧
      (Conflict.shadowed "Value" 0 1 ["digits"] ∈ conflictsIn catalog ↔
        (Conflict.shadowed "Value" 0 1 ["digits"]).Holds catalog) ∧
      conflictsIn catalog = [.shadowed "Value" 0 1 ["digits"]] := by
  intro catalog
  have hNames : (catalog.map Prod.fst).Nodup := by decide
  exact ⟨hNames, (conflictsIn_exact hNames).2.1 _, by decide⟩

end DocumentLanguage
