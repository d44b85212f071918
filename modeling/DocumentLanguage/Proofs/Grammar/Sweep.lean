import DocumentLanguage.Proofs.Grammar.Analysis

/-!
The analysis of a catalog in place. The rules are visited in turn, in whatever order, and what is
found of an alternative counts at once, for the next one as well. Sweeping over all rules until a
sweep changes nothing comes to an end, and then just as much is known as by looking at all rules at
a time.
-/
namespace DocumentLanguage

namespace Analysis

def blank (productions : Productions) : Analysis :=
  ⟨[], productions.map fun entry => (entry.1, [])⟩

/-- Look at one alternative of a name, and put what is found to what is known. -/
def visit (name : String) (analysis : Analysis) (alternative : Alternative) : Analysis where
  nullable :=
    if analysis.alternativeNullable alternative then NameSet.insert name analysis.nullable
    else analysis.nullable
  first := analysis.first.map fun entry =>
    (entry.1, if entry.1 = name then entry.2.union (analysis.firstOf alternative) else entry.2)

/-- Visit every alternative of every rule once, each with all that has been found before it. -/
def sweep (order : Productions) (analysis : Analysis) : Analysis :=
  order.foldl (fun analysis entry => entry.2.foldl (visit entry.1) analysis) analysis

end Analysis

/-- Everything that follows from productions, found by sweeping over them in an order until a sweep
changes nothing. -/
def Productions.sweeps (productions order : Productions) : Analysis :=
  Analysis.settleBy (Analysis.sweep order)
    ((productions.length + 1) * (productions.itemCount + 2)) (.blank productions)

namespace Analysis

variable {productions order : Productions} {catalog : Catalog} {analysis other : Analysis}
  {name : String} {alternative : Alternative} {fact : Fact}

/-! ### What is found at one alternative -/

/-- A fact about a name is found at one of its alternatives, from what is known. -/
def Finds (analysis : Analysis) (name : String) (alternative : Alternative) : Fact → Prop
  | (subject, none) => subject = name ∧ analysis.alternativeNullable alternative = true
  | (subject, some token) => subject = name ∧ token ∈ analysis.firstOf alternative

theorem Below.finds (below : analysis.Below other) (finds : analysis.Finds name alternative fact) :
    other.Finds name alternative fact := by
  obtain ⟨subject, _ | token⟩ := fact
  · exact finds.imp_right below.alternativeNullable
  · exact finds.imp_right below.firstOf

/-- A refinement knows what is found at some alternative of a production, by what was known before,
and nothing else. -/
theorem knows_refine (distinct : (productions.map Prod.fst).Nodup) :
    (analysis.refine productions).Knows fact ↔
      ∃ entry ∈ productions, ∃ alternative ∈ entry.2, analysis.Finds entry.1 alternative fact := by
  obtain ⟨subject, _ | token⟩ := fact
  · rw [knows_refine_none]
    constructor
    · rintro ⟨alternatives, hMem, alternative, hAlternative, hNullable⟩
      exact ⟨_, hMem, alternative, hAlternative, rfl, hNullable⟩
    · rintro ⟨⟨_, alternatives⟩, hMem, alternative, hAlternative, rfl, hNullable⟩
      exact ⟨alternatives, hMem, alternative, hAlternative, hNullable⟩
  · rw [knows_refine_some distinct]
    constructor
    · rintro ⟨alternatives, hMem, alternative, hAlternative, hToken⟩
      exact ⟨_, hMem, alternative, hAlternative, rfl, hToken⟩
    · rintro ⟨⟨_, alternatives⟩, hMem, alternative, hAlternative, rfl, hToken⟩
      exact ⟨alternatives, hMem, alternative, hAlternative, hToken⟩

/-! ### What a visit does -/

theorem Tidy.blank : (Analysis.blank productions).Tidy productions where
  nullable := List.Pairwise.nil
  names := by simp [Analysis.blank]
  first := List.forall_mem_map.mpr fun _ _ => List.Pairwise.nil

/-- A visit keeps an analysis tidy, as what it adds is put in its place. -/
theorem Tidy.visit (tidy : analysis.Tidy productions) (name : String) (alternative : Alternative) :
    (analysis.visit name alternative).Tidy productions where
  nullable := by
    rw [Analysis.visit]
    split
    · exact tidy.nullable.insert name
    · exact tidy.nullable
  names := by
    rw [Analysis.visit, List.map_map, ← tidy.names]
    rfl
  first := by
    refine List.forall_mem_map.mpr fun entry hMem => ?_
    dsimp only
    split
    · exact (tidy.first entry hMem).union _
    · exact tidy.first entry hMem

/-- Before the first visit nothing is known. -/
theorem not_knows_blank : ¬ (blank productions).Knows fact := by
  obtain ⟨subject, _ | token⟩ := fact
  · exact List.not_mem_nil
  · have hNone : (blank productions).symbolFirst (.rule subject) = [] := by
      rw [symbolFirst, blank, lookup_map (fun _ _ => []) productions subject]
      cases productions.lookup subject <;> rfl
    rw [Knows, hNone]
    exact List.not_mem_nil

/-- A visit adds what is found at the alternative, and nothing else. -/
theorem knows_visit (tidy : analysis.Tidy productions) (hName : name ∈ productions.map Prod.fst) :
    (analysis.visit name alternative).Knows fact ↔
      analysis.Knows fact ∨ analysis.Finds name alternative fact := by
  obtain ⟨subject, _ | token⟩ := fact
  · rw [Knows, visit]
    split
    · rename_i hNullable
      simp [Knows, Finds, hNullable, or_comm]
    · rename_i hNullable
      simp [Knows, Finds, hNullable]
  · have hLookup : (analysis.visit name alternative).first.lookup subject =
        (analysis.first.lookup subject).map fun tokens =>
          if subject = name then tokens.union (analysis.firstOf alternative) else tokens :=
      lookup_map (fun subject tokens =>
        if subject = name then NameSet.union tokens (analysis.firstOf alternative) else tokens)
        analysis.first subject
    rw [Knows, Knows, symbolFirst, symbolFirst, hLookup]
    by_cases hSame : subject = name
    · subst hSame
      rw [← tidy.names] at hName
      obtain ⟨entry, hMem, hEntry⟩ := List.mem_map.mp hName
      have hFound : (analysis.first.lookup subject).isSome = true :=
        List.lookup_isSome_iff.mpr ⟨entry, hMem, beq_iff_eq.mpr hEntry.symm⟩
      obtain ⟨tokens, hTokens⟩ := Option.isSome_iff_exists.mp hFound
      simp [Finds, hTokens]
    · simp [Finds, hSame]

/-! ### What a sweep does -/

/-- An analysis on the way of which everything holds. -/
structure Swept (productions : Productions) (catalog : Catalog) (analysis : Analysis) : Prop where
  onTheWay : analysis.OnTheWay productions
  sound : analysis.Sound catalog

theorem Swept.blank : (Analysis.blank productions).Swept productions catalog where
  onTheWay := ⟨.blank, fun _ hKnows => absurd hKnows not_knows_blank,
    fun _ hKnows => absurd hKnows not_knows_blank⟩
  sound := fun _ hKnows => absurd hKnows not_knows_blank

section

variable (of : productions.Of catalog) {alternatives : List Alternative}

include of

/-- What is found at an alternative holds, and a refinement would find it too. -/
theorem Swept.of_finds (swept : analysis.Swept productions catalog)
    (hMem : (name, alternatives) ∈ productions) (hAlternative : alternative ∈ alternatives)
    (finds : analysis.Finds name alternative fact) :
    (analysis.refine productions).Knows fact ∧ catalog.Admits fact := by
  have hKnows : (analysis.refine productions).Knows fact :=
    (knows_refine of.distinct).mpr ⟨_, hMem, alternative, hAlternative, finds⟩
  exact ⟨hKnows, swept.sound.refine of fact hKnows⟩

/-- A visit loses nothing that was known, and it finds nothing that does not hold. -/
theorem Swept.visit (swept : analysis.Swept productions catalog)
    (hMem : (name, alternatives) ∈ productions) (hAlternative : alternative ∈ alternatives) :
    (analysis.visit name alternative).Swept productions catalog ∧
      analysis.Below (analysis.visit name alternative) := by
  have hVisit : ∀ {fact}, (analysis.visit name alternative).Knows fact ↔
      analysis.Knows fact ∨ analysis.Finds name alternative fact :=
    knows_visit swept.onTheWay.tidy (List.mem_map_of_mem hMem)
  have below : analysis.Below (analysis.visit name alternative) := fun _ hKnows => hVisit.mpr (.inl hKnows)
  have hRefined : ∀ fact, (analysis.visit name alternative).Knows fact →
      (analysis.refine productions).Knows fact := fun fact hKnows =>
    (hVisit.mp hKnows).elim (swept.onTheWay.below fact) fun finds =>
      (swept.of_finds of hMem hAlternative finds).1
  refine ⟨⟨⟨swept.onTheWay.tidy.visit name alternative, ?_, ?_⟩, ?_⟩, below⟩
  · exact fun fact hKnows => below.refine of.distinct fact (hRefined fact hKnows)
  · exact fun fact hKnows => (swept.onTheWay.within.refine of.distinct) fact (hRefined fact hKnows)
  · exact fun fact hKnows => swept.sound.refine of fact (hRefined fact hKnows)

/-- Visiting the alternatives of a rule one after another loses nothing, and what could be found at
any of them before is known behind them. -/
theorem Swept.visits (swept : analysis.Swept productions catalog)
    (hMem : (name, alternatives) ∈ productions) {some : List Alternative} (hSome : some ⊆ alternatives) :
    (some.foldl (Analysis.visit name) analysis).Swept productions catalog ∧
      analysis.Below (some.foldl (Analysis.visit name) analysis) ∧
      ∀ alternative ∈ some, ∀ fact, analysis.Finds name alternative fact →
        (some.foldl (Analysis.visit name) analysis).Knows fact := by
  induction some generalizing analysis with
  | nil => exact ⟨swept, fun _ hKnows => hKnows, nofun⟩
  | cons alternative some ih =>
    rw [List.cons_subset] at hSome
    obtain ⟨hNext, below⟩ := swept.visit of hMem hSome.1
    obtain ⟨hLast, hBelow, hFinds⟩ := ih hNext hSome.2
    refine ⟨hLast, fun fact hKnows => hBelow fact (below fact hKnows), ?_⟩
    refine List.forall_mem_cons.mpr ⟨fun fact finds => hBelow fact ?_, ?_⟩
    · exact (knows_visit swept.onTheWay.tidy (List.mem_map_of_mem hMem)).mpr (.inr finds)
    · exact fun other hOther fact finds => hFinds other hOther fact (below.finds finds)

/-- Sweeping over rules loses nothing, and what could be found at any alternative of theirs before
is known behind it. -/
theorem Swept.sweep (swept : analysis.Swept productions catalog) (hOrder : order ⊆ productions) :
    (analysis.sweep order).Swept productions catalog ∧ analysis.Below (analysis.sweep order) ∧
      ∀ entry ∈ order, ∀ alternative ∈ entry.2, ∀ fact, analysis.Finds entry.1 alternative fact →
        (analysis.sweep order).Knows fact := by
  induction order generalizing analysis with
  | nil => exact ⟨swept, fun _ hKnows => hKnows, nofun⟩
  | cons entry order ih =>
    rw [List.cons_subset] at hOrder
    obtain ⟨hNext, below, hHere⟩ := swept.visits of hOrder.1 (List.Subset.refl entry.2)
    obtain ⟨hLast, hBelow, hFinds⟩ := ih hNext hOrder.2
    refine ⟨hLast, fun fact hKnows => hBelow fact (below fact hKnows), ?_⟩
    refine List.forall_mem_cons.mpr ⟨fun alternative hAlternative fact finds => ?_, ?_⟩
    · exact hBelow fact (hHere alternative hAlternative fact finds)
    · exact fun other hOther alternative hAlternative fact finds =>
        hFinds other hOther alternative hAlternative fact (below.finds finds)

end

/-! ### Where no sweep changes anything -/

/-- Where nothing that does not hold is known and a refinement adds nothing, all that holds is
known. -/
theorem Settled.knows_iff (settled : analysis.Settled productions) (of : productions.Of catalog)
    (sound : analysis.Sound catalog) : analysis.Knows fact ↔ catalog.Admits fact := by
  refine ⟨sound fact, fun hAdmits => ?_⟩
  rw [← settled, knows_refine of.distinct]
  obtain ⟨subject, _ | token⟩ := fact
  · obtain ⟨alternative, alternates, hNothing⟩ := hAdmits
    obtain ⟨alternatives, hMem, hAlternative⟩ := of.alternates_iff.mp alternates
    exact ⟨_, hMem, alternative, hAlternative, rfl, settled.alternativeNullable of hNothing⟩
  · obtain ⟨alternative, alternates, hBegins⟩ := hAdmits
    obtain ⟨alternatives, hMem, hAlternative⟩ := of.alternates_iff.mp alternates
    exact ⟨_, hMem, alternative, hAlternative, rfl, settled.mem_firstOf of hBegins⟩

/-- A refinement adds nothing where a sweep over all rules changes nothing. -/
theorem Swept.settled (swept : analysis.Swept productions catalog) (of : productions.Of catalog)
    (hOrder : order.Perm productions) (hSame : analysis.sweep order = analysis) :
    analysis.Settled productions := by
  refine Tidy.refine.eq swept.onTheWay.tidy of.distinct fun fact => ⟨fun hKnows => ?_, swept.onTheWay.below fact⟩
  obtain ⟨entry, hMem, alternative, hAlternative, finds⟩ := (knows_refine of.distinct).mp hKnows
  rw [← hSame]
  exact (swept.sweep of hOrder.subset).2.2 entry (hOrder.mem_iff.mpr hMem) alternative hAlternative fact finds

/-- Visiting the rules of a catalog in any order, each with all that has been found before it, comes
to an end at which a sweep changes nothing, and what is known then is what refinements come to. -/
theorem sweeps_eq_analyse (of : productions.Of catalog) (hOrder : order.Perm productions) :
    (productions.sweeps order).sweep order = productions.sweeps order ∧
      productions.sweeps order = productions.analyse := by
  have hCard := card_candidates_le productions
  have hBound : (candidates productions).card <
      (productions.length + 1) * (productions.itemCount + 2) := by
    have hLess : productions.length * (productions.itemCount + 1) <
        (productions.length + 1) * (productions.itemCount + 2) :=
      Nat.mul_lt_mul'' (Nat.lt_succ_self _) (Nat.lt_succ_self _)
    omega
  obtain ⟨swept, hEnd⟩ := @settleBy_spec productions (.blank productions) of.distinct
    (Analysis.sweep order) (Swept productions catalog) Swept.onTheWay
    (fun swept => ⟨(swept.sweep of hOrder.subset).1, (swept.sweep of hOrder.subset).2.1⟩) _ .blank
    (Nat.lt_add_right _ hBound)
  refine ⟨hEnd, ?_⟩
  have settled := swept.settled of hOrder hEnd
  have analysed : productions.analyse.Settled productions := refine_analyse of.distinct
  have sound : productions.analyse.Sound catalog :=
    Sound.settle of (fun fact hKnows => absurd hKnows (not_knows_start fact)) _
  have tidy : productions.analyse.Tidy productions := analysed ▸ .refine
  exact swept.onTheWay.tidy.eq tidy of.distinct fun fact =>
    (settled.knows_iff of swept.sound).trans (analysed.knows_iff of sound).symm

end Analysis

end DocumentLanguage
