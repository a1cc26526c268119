import AsetPlatform.Jobs.Sentiment

/-!
# The classes of the sentiment job

The tickers in scope are fresh, dormant and skipped, probed, hot, learning and kept or cut, or cold and
sampled or skipped. The learning tickers are cut by their place in a sorted list, so that a symbol that
occurs twice may be both kept and cut; `partition_iff` says that nothing else goes wrong.
-/

set_option autoImplicit false

namespace AsetPlatform.Jobs.Sentiment

namespace Input

variable (x : Input)

def learningCut : List String :=
  if 50 < x.learningFull.length then
    (x.learningFull.insertionSort fun a b => x.marketCap b ≤ x.marketCap a).drop 50
  else []

def coldSkip : List String := x.cold.filter fun t => t ∉ x.trickle

/-- The eight classes. -/
def classes : List (List String) :=
  [x.toSkip, x.dormantSkip, x.dormantProbe, x.hotTickers, x.learning, x.learningCut, x.trickle,
    x.coldSkip]

/-- Each ticker in scope is in a class, no other is, and no two classes share one. -/
structure Partition : Prop where
  covers : ∀ t ∈ x.allYf, ∃ c ∈ x.classes, t ∈ c
  inScope : ∀ c ∈ x.classes, c ⊆ x.allYf
  disjoint : x.classes.Pairwise List.Disjoint

end Input

/-! ## One class for each ticker -/

section Classes

variable {x : Input} {t : String}

theorem mem_toSkip : t ∈ x.toSkip ↔ t ∈ x.allYf ∧ x.fresh t = true := List.mem_filter

theorem mem_inScopeDormant :
    t ∈ x.inScopeDormant ↔ t ∈ x.allYf ∧ x.dormant t = true ∧ x.fresh t = false := by
  rw [Input.inScopeDormant, List.mem_filter, Bool.and_eq_true, Bool.not_eq_true']

theorem mem_dormantSkip_imp (h : t ∈ x.dormantSkip) :
    t ∈ x.inScopeDormant ∧ t ∉ x.dormantProbe := by
  rw [Input.dormantSkip] at h
  split at h
  · cases h
  · obtain ⟨hdormant, hprobe⟩ := List.mem_filter.mp h
    exact ⟨hdormant, of_decide_eq_true hprobe⟩

theorem mem_dormantProbe_imp (h : t ∈ x.dormantProbe) : t ∈ x.inScopeDormant := by
  rw [Input.dormantProbe] at h
  split at h
  · cases h
  · exact of_decide_eq_true (List.mem_filter.mp (List.mem_of_mem_take h)).2

theorem mem_remaining :
    t ∈ x.remaining ↔ t ∈ x.allYf ∧ x.fresh t = false ∧ t ∉ x.dormantSkip := by
  rw [Input.remaining, List.mem_filter, Bool.and_eq_true, Bool.not_eq_true', decide_eq_true_eq]

theorem mem_learningFull :
    t ∈ x.learningFull ↔ t ∈ x.remaining ∧ x.historyDays t < 10 ∧ t ∉ x.dormantProbe := by
  rw [Input.learningFull, List.mem_filter, Bool.and_eq_true, decide_eq_true_eq, decide_eq_true_eq]

theorem mem_hotTickers :
    t ∈ x.hotTickers ↔
      t ∈ x.remaining ∧ x.hot t = true ∧ t ∉ x.learningFull ∧ t ∉ x.dormantProbe := by
  rw [Input.hotTickers, List.mem_filter, Bool.and_eq_true, Bool.and_eq_true, decide_eq_true_eq,
    decide_eq_true_eq, and_assoc]

theorem mem_cold :
    t ∈ x.cold ↔
      t ∈ x.remaining ∧ x.hot t = false ∧ t ∉ x.learningFull ∧ t ∉ x.dormantProbe := by
  rw [Input.cold, List.mem_filter, Bool.and_eq_true, Bool.and_eq_true, Bool.not_eq_true',
    decide_eq_true_eq, decide_eq_true_eq, and_assoc]

theorem mem_learning_or : t ∈ x.learningFull ↔ t ∈ x.learning ∨ t ∈ x.learningCut := by
  rw [Input.learning, Input.learningCut]
  split
  -- sorting and cutting loses nobody
  · rw [← List.mem_append, List.take_append_drop]
    exact (List.perm_insertionSort _ _).mem_iff.symm
  · simp

theorem mem_trickle_imp (h : t ∈ x.trickle) : t ∈ x.cold := by
  rw [Input.trickle] at h
  split at h
  · cases h
  · exact (x.sample_subperm _ _).subset h

theorem mem_coldSkip : t ∈ x.coldSkip ↔ t ∈ x.cold ∧ t ∉ x.trickle := by
  rw [Input.coldSkip, List.mem_filter, decide_eq_true_eq]

/-- What decides about a ticker, in the order of the code. -/
inductive Label where
  | fresh
  | dormantSkip
  | probe
  | learning
  | hot
  | cold
  deriving DecidableEq

/-- The label of a ticker in scope. -/
def labelOf (x : Input) (t : String) : Label :=
  if x.fresh t then .fresh
  else if t ∈ x.dormantSkip then .dormantSkip
  else if t ∈ x.dormantProbe then .probe
  else if t ∈ x.learningFull then .learning
  else if x.hot t then .hot
  else .cold

/-- A class whose tickers are all in scope and have one label. -/
def Labelled (x : Input) (label : Label) (c : List String) : Prop :=
  ∀ t ∈ c, t ∈ x.allYf ∧ labelOf x t = label

theorem labelled_toSkip : Labelled x .fresh x.toSkip := by
  intro t ht
  obtain ⟨hall, hfresh⟩ := mem_toSkip.mp ht
  exact ⟨hall, by simp [labelOf, hfresh]⟩

theorem labelled_dormantSkip : Labelled x .dormantSkip x.dormantSkip := by
  intro t ht
  obtain ⟨hall, -, hfresh⟩ := mem_inScopeDormant.mp (mem_dormantSkip_imp ht).1
  exact ⟨hall, by simp [labelOf, hfresh, ht]⟩

theorem labelled_dormantProbe : Labelled x .probe x.dormantProbe := by
  intro t ht
  obtain ⟨hall, -, hfresh⟩ := mem_inScopeDormant.mp (mem_dormantProbe_imp ht)
  have hskip : t ∉ x.dormantSkip := fun hskip => (mem_dormantSkip_imp hskip).2 ht
  exact ⟨hall, by simp [labelOf, hfresh, hskip, ht]⟩

theorem labelled_learningFull : Labelled x .learning x.learningFull := by
  intro t ht
  obtain ⟨hremaining, -, hprobe⟩ := mem_learningFull.mp ht
  obtain ⟨hall, hfresh, hskip⟩ := mem_remaining.mp hremaining
  exact ⟨hall, by simp [labelOf, hfresh, hskip, hprobe, ht]⟩

theorem labelled_hotTickers : Labelled x .hot x.hotTickers := by
  intro t ht
  obtain ⟨hremaining, hhot, hlearning, hprobe⟩ := mem_hotTickers.mp ht
  obtain ⟨hall, hfresh, hskip⟩ := mem_remaining.mp hremaining
  exact ⟨hall, by simp [labelOf, hfresh, hskip, hprobe, hlearning, hhot]⟩

theorem labelled_cold : Labelled x .cold x.cold := by
  intro t ht
  obtain ⟨hremaining, hhot, hlearning, hprobe⟩ := mem_cold.mp ht
  obtain ⟨hall, hfresh, hskip⟩ := mem_remaining.mp hremaining
  exact ⟨hall, by simp [labelOf, hfresh, hskip, hprobe, hlearning, hhot]⟩

theorem Labelled.subset {label : Label} {c c' : List String} (h : Labelled x label c)
    (hsub : c' ⊆ c) : Labelled x label c' := fun t ht => h t (hsub ht)

theorem Labelled.disjoint {label label' : Label} {c c' : List String} (h : Labelled x label c)
    (h' : Labelled x label' c') (hne : label ≠ label') : List.Disjoint c c' :=
  fun t ht ht' => hne ((h t ht).2.symm.trans (h' t ht').2)

theorem labelled_learning : Labelled x .learning x.learning :=
  labelled_learningFull.subset fun _ ht => mem_learning_or.mpr (Or.inl ht)

theorem labelled_learningCut : Labelled x .learning x.learningCut :=
  labelled_learningFull.subset fun _ ht => mem_learning_or.mpr (Or.inr ht)

theorem labelled_trickle : Labelled x .cold x.trickle :=
  labelled_cold.subset fun _ ht => mem_trickle_imp ht

theorem labelled_coldSkip : Labelled x .cold x.coldSkip :=
  labelled_cold.subset fun _ ht => (mem_coldSkip.mp ht).1

def labelledClasses (x : Input) : List (Label × List String) :=
  [(.fresh, x.toSkip), (.dormantSkip, x.dormantSkip), (.probe, x.dormantProbe),
    (.hot, x.hotTickers), (.learning, x.learning), (.learning, x.learningCut),
    (.cold, x.trickle), (.cold, x.coldSkip)]

theorem map_labelledClasses : (labelledClasses x).map Prod.snd = x.classes := rfl

theorem labelled_of_mem {a : Label × List String} (ha : a ∈ labelledClasses x) :
    Labelled x a.1 a.2 := by
  simp only [labelledClasses, List.mem_cons, List.not_mem_nil, or_false] at ha
  rcases ha with rfl | rfl | rfl | rfl | rfl | rfl | rfl | rfl
  · exact labelled_toSkip
  · exact labelled_dormantSkip
  · exact labelled_dormantProbe
  · exact labelled_hotTickers
  · exact labelled_learning
  · exact labelled_learningCut
  · exact labelled_trickle
  · exact labelled_coldSkip

theorem exists_class (ht : t ∈ x.allYf) : ∃ c ∈ x.classes, t ∈ c := by
  by_cases hfresh : x.fresh t = true
  · exact ⟨x.toSkip, by simp [Input.classes], mem_toSkip.mpr ⟨ht, hfresh⟩⟩
  by_cases hskip : t ∈ x.dormantSkip
  · exact ⟨x.dormantSkip, by simp [Input.classes], hskip⟩
  by_cases hprobe : t ∈ x.dormantProbe
  · exact ⟨x.dormantProbe, by simp [Input.classes], hprobe⟩
  have hremaining := mem_remaining.mpr ⟨ht, Bool.eq_false_iff.mpr hfresh, hskip⟩
  by_cases hlearning : t ∈ x.learningFull
  · rcases mem_learning_or.mp hlearning with hkept | hcut
    · exact ⟨x.learning, by simp [Input.classes], hkept⟩
    · exact ⟨x.learningCut, by simp [Input.classes], hcut⟩
  by_cases hhot : x.hot t = true
  · exact ⟨x.hotTickers, by simp [Input.classes],
      mem_hotTickers.mpr ⟨hremaining, hhot, hlearning, hprobe⟩⟩
  have hcold := mem_cold.mpr ⟨hremaining, Bool.eq_false_iff.mpr hhot, hlearning, hprobe⟩
  by_cases htrickle : t ∈ x.trickle
  · exact ⟨x.trickle, by simp [Input.classes], htrickle⟩
  · exact ⟨x.coldSkip, by simp [Input.classes], mem_coldSkip.mpr ⟨hcold, htrickle⟩⟩

end Classes

/-- The classes partition the tickers in scope if and only if no learning ticker is both kept and
cut. -/
theorem partition_iff (x : Input) : x.Partition ↔ List.Disjoint x.learning x.learningCut := by
  constructor
  -- the two are neighbours among the classes
  · intro h
    have hsub : [x.learning, x.learningCut].Sublist x.classes :=
      ((List.sublist_append_left [x.learning, x.learningCut] [x.trickle, x.coldSkip])).trans
        (List.sublist_append_right [x.toSkip, x.dormantSkip, x.dormantProbe, x.hotTickers] _)
    exact List.pairwise_pair.mp (List.Pairwise.sublist hsub h.disjoint)
  · intro hlearning
    have hcold : List.Disjoint x.trickle x.coldSkip :=
      fun t ht ht' => (mem_coldSkip.mp ht').2 ht
    -- two classes of one label are the two parts of the learning or of the cold tickers
    have hpairs : (labelledClasses x).Pairwise fun a b => a.1 ≠ b.1 ∨ List.Disjoint a.2 b.2 := by
      simp [labelledClasses, hlearning, hcold]
    refine ⟨fun t => exists_class, ?_, ?_⟩
    · intro c hc t ht
      rw [← map_labelledClasses] at hc
      obtain ⟨a, ha, rfl⟩ := List.mem_map.mp hc
      exact (labelled_of_mem ha t ht).1
    · rw [← map_labelledClasses, List.pairwise_map]
      refine hpairs.imp_of_mem ?_
      rintro a b ha hb (hne | hdisjoint)
      · exact (labelled_of_mem ha).disjoint (labelled_of_mem hb) hne
      · exact hdisjoint

end AsetPlatform.Jobs.Sentiment
