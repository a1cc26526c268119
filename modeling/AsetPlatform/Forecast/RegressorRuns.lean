import AsetPlatform.Forecast.Regressors

/-!
# Regressors and the state of the store

Two runs of `_load_regressors_from_iceberg` over the same stored rows, for one ticker: the rows may be
stored in another order, and other calls may have left other entries in the caches.

`steady_iff`: the training columns are the same in any two such runs exactly when the live fetch is
used, or the closes of the index are all the same, no macro series misses a day on which a cached frame
has a value for it, and the T-bill moves only with the 10-year yield.
-/

set_option autoImplicit false

namespace AsetPlatform.Forecast.Regressors

open AsetPlatform.Library StockData

/-! ## What the order of the rows leaves as it is -/

section Order

variable {df df' : List (OhlcvRow ℚ)}

theorem days_perm (h : df.Perm df') : days df = days df' := by
  ext d
  rw [days, days, List.mem_toFinset, List.mem_toFinset]
  exact (h.map _).mem_iff

theorem closes_perm (h : df.Perm df') (hDays : (df.map OhlcvRow.date).Nodup) :
    closes df = closes df' := by
  have hDays' : (df'.map OhlcvRow.date).Nodup := (h.map _).nodup_iff.mp hDays
  funext d
  have hFind : df.find? (·.date = d) = df'.find? (·.date = d) := by
    refine Option.ext fun r => ?_
    rw [find?_key_eq_some hDays, find?_key_eq_some hDays', h.mem_iff]
  rw [closes, closes, hFind]

theorem part_perm (h : df.Perm df') (hDays : (df.map OhlcvRow.date).Nodup) : part df = part df' := by
  rw [part, part, days_perm h, closes_perm h hDays]
  by_cases hEmpty : df = []
  · rw [if_pos hEmpty, if_pos (List.perm_nil.mp (hEmpty ▸ h.symm))]
  · rw [if_neg hEmpty, if_neg fun hNil : df' = [] => hEmpty (List.perm_nil.mp (hNil ▸ h))]

theorem closes_of_notMem {d : Nat} (h : d ∉ days df) : closes df d = .nan := by
  have hFind : df.find? (·.date = d) = none := by
    rw [List.find?_eq_none]
    intro r hr hDay
    refine h (List.mem_toFinset.mpr ?_)
    rw [← of_decide_eq_true hDay]
    exact List.mem_map_of_mem hr
  rw [closes, hFind]
  rfl

variable {rows rows' : List (OhlcvRow ℚ)}

theorem bulkRows_perm (h : rows.Perm rows') (sym : String) :
    (bulkRows rows sym).Perm (bulkRows rows' sym) := h.filter _

theorem getOhlcv_perm (rows : List (OhlcvRow ℚ)) (sym : String) :
    (getOhlcv rows sym).Perm (bulkRows rows sym) := List.mergeSort_perm _ _

theorem nodup_days (h : (rows.map OhlcvRow.key).Nodup) (sym : String) :
    ((bulkRows rows sym).map OhlcvRow.date).Nodup := by
  have hKeys : ((bulkRows rows sym).map OhlcvRow.key).Nodup := h.sublist (List.filter_sublist.map _)
  refine (List.nodup_map_iff_inj_on (hKeys.of_map _)).mpr fun r hr r' hr' hDay => ?_
  refine List.inj_on_of_nodup_map hKeys hr hr' (Prod.ext ?_ hDay)
  exact (of_decide_eq_true (List.mem_filter.mp hr).2).trans
    (of_decide_eq_true (List.mem_filter.mp hr').2).symm

end Order

/-! ## The two ways to the macro columns -/

section Macro

def Series.closeDays (s : Series) : Finset Nat := known .nan s.days s.value

/-- The close in force on a day: the last one up to it, or else the first. -/
def Series.inForce (s : Series) : Column := valueAt .nan s.closeDays s.value

/-- There are no closes off the days of a series, and none is infinite. -/
structure Series.Proper (s : Series) : Prop where
  off : ∀ d, d ∉ s.days → s.value d = .nan
  finite : ∀ d, s.value d ≠ .nan → ∃ x, s.value d = .number x

variable {s : Series} {ds : Finset Nat}

theorem Series.Proper.known_eq (h : s.Proper) (hSub : s.days ⊆ ds) :
    known .nan ds s.value = s.closeDays := by
  ext d
  rw [closeDays, mem_known, mem_known]
  refine and_congr_left fun hValue => ⟨fun _ => ?_, fun hDay => hSub hDay⟩
  by_contra hOut
  exact hValue (h.off d hOut)

theorem Series.Proper.fillBoth_eq (h : s.Proper) (hSub : s.days ⊆ ds) :
    fillBoth .nan ds s.value = onRows .nan ds s.inForce := by
  rw [Library.fillBoth_eq, h.known_eq hSub, inForce]

theorem inForce_of_empty (h : s.closeDays = ∅) : s.inForce = fun _ => .nan := by
  funext t
  rw [Series.inForce, h, valueAt_empty]

theorem Series.Proper.fillBoth_fillBoth (h : s.Proper) (hSub : s.days ⊆ ds) {ds' : Finset Nat}
    (hSub' : ds ⊆ ds') : fillBoth .nan ds' (fillBoth .nan ds s.value) = onRows .nan ds' s.inForce := by
  rw [Library.fillBoth_fillBoth hSub', h.known_eq hSub, inForce]

def daysOf (parts : List (String × Series)) : Finset Nat :=
  parts.foldr (fun p ds => p.2.days ∪ ds) ∅

theorem days_subset_daysOf {parts : List (String × Series)} {p : String × Series} (h : p ∈ parts) :
    p.2.days ⊆ daysOf parts := by
  induction parts with
  | nil => cases h
  | cons q qs ih =>
      rw [daysOf, List.foldr_cons]
      rcases List.mem_cons.mp h with rfl | hRest
      · exact Finset.subset_union_left
      · exact (ih hRest).trans Finset.subset_union_right

theorem foldl_join_raw (parts : List (String × Series)) (fr : Frame) :
    parts.foldl (Frame.join fun _ f => f) fr =
      ⟨fr.ds ∪ daysOf parts, fr.columns ++ parts.map fun p => (p.1, p.2.value)⟩ := by
  induction parts generalizing fr with
  | nil => simp [daysOf]
  | cons p ps ih =>
      rw [List.foldl_cons, ih, Frame.join]
      simp [daysOf, Finset.union_assoc]

/-- The columns that are filled one after the other. -/
def builtColumns (ds : Finset Nat) : List (String × Series) → List (String × Column)
  | [] => []
  | p :: ps => (p.1, onRows .nan (ds ∪ p.2.days) p.2.inForce) :: builtColumns (ds ∪ p.2.days) ps

theorem foldl_join_filled {parts : List (String × Series)} (h : ∀ p ∈ parts, p.2.Proper) (fr : Frame) :
    parts.foldl (Frame.join (fillBoth .nan)) fr =
      ⟨fr.ds ∪ daysOf parts, fr.columns ++ builtColumns fr.ds parts⟩ := by
  induction parts generalizing fr with
  | nil => simp [daysOf, builtColumns]
  | cons p ps ih =>
      obtain ⟨hProper, hRest⟩ := List.forall_mem_cons.mp h
      rw [List.foldl_cons, ih hRest, Frame.join]
      simp only [builtColumns, hProper.fillBoth_eq Finset.subset_union_right, List.append_assoc,
        List.singleton_append, daysOf, List.foldr_cons, Finset.union_assoc]

/-- Joins with the columns of one frame join its days once. -/
theorem mergeCached_eq (fr macroDf : Frame) (hSome : macroDf.columns ≠ []) :
    mergeCached fr macroDf = ⟨fr.ds ∪ macroDf.ds, fr.columns ++ macroDf.columns.map fun c =>
      (c.1, fillBoth .nan (fr.ds ∪ macroDf.ds) c.2)⟩ := by
  have hAll : ∀ (cs : List (String × Column)) (fr : Frame), macroDf.ds ⊆ fr.ds →
      cs.foldl (fun fr c => fr.join (fillBoth .nan) (c.1, ⟨macroDf.ds, c.2⟩)) fr =
        ⟨fr.ds, fr.columns ++ cs.map fun c => (c.1, fillBoth .nan fr.ds c.2)⟩ := by
    intro cs
    induction cs with
    | nil => intro fr _; simp
    | cons c cs ih =>
        intro fr hSub
        have hJoin : fr.join (fillBoth .nan) (c.1, ⟨macroDf.ds, c.2⟩) =
            ⟨fr.ds, fr.columns ++ [(c.1, fillBoth .nan fr.ds c.2)]⟩ := by
          simp only [Frame.join, Finset.union_eq_left.mpr hSub]
        rw [List.foldl_cons, hJoin]
        refine (ih ⟨fr.ds, fr.columns ++ [(c.1, fillBoth .nan fr.ds c.2)]⟩ hSub).trans ?_
        simp
  rw [mergeCached]
  cases hColumns : macroDf.columns with
  | nil => exact absurd hColumns hSome
  | cons c cs =>
      rw [List.foldl_cons, hAll cs _ (by simp [Frame.join])]
      simp [Frame.join]

/-! ### The spread -/

/-- The 10-year yield and the T-bill, when both are there. -/
def yields (read : String → Option Series) : Option (Series × Series) :=
  (read "^TNX").bind fun tnx => (read "^IRX").map fun irx => (tnx, irx)

def macroDays (read : String → Option Series) : Finset Nat :=
  daysOf (macroParts read) ∪ (yields read).elim ∅ fun y => y.2.days

/-- The spread on the day whose 10-year yield is in force. -/
def spreadOn (tnx irx : Series) : Column := fun t =>
  (place tnx.closeDays t).elim .nan fun d => (tnx.value d).sub (irx.inForce d)

variable {read : String → Option Series}

theorem yields_eq_some_iff {tnx irx : Series} :
    yields read = some (tnx, irx) ↔ read "^TNX" = some tnx ∧ read "^IRX" = some irx := by
  rw [yields]
  cases read "^TNX" <;> cases read "^IRX" <;> simp

theorem yields_eq_none_iff : yields read = none ↔ read "^TNX" = none ∨ read "^IRX" = none := by
  rw [yields]
  cases read "^TNX" <;> cases read "^IRX" <;> simp

theorem lookup_macroParts : (macroParts read).lookup "treasury_10y" = read "^TNX" := by
  rw [macroParts, macroSyms]
  cases hTnx : read "^TNX" with
  | some tnx => simp [hTnx]
  | none =>
      cases hOil : read "CL=F" <;> cases hDollar : read "DX-Y.NYB" <;>
        simp [hTnx, hOil, hDollar, List.lookup_cons]

theorem macroParts_of_some {tnx : Series} (h : read "^TNX" = some tnx) :
    ∃ rest, macroParts read = ("treasury_10y", tnx) :: rest := by
  rw [macroParts, macroSyms, List.filterMap_cons_some (by rw [h]; rfl)]
  exact ⟨_, rfl⟩

theorem lookup_map_snd {α β : Type} (f : α → β) (l : List (String × α)) (k : String) :
    (l.map fun p => (p.1, f p.2)).lookup k = (l.lookup k).map f := by
  induction l with
  | nil => rfl
  | cons p ps ih =>
      rw [List.map_cons, List.lookup_cons, List.lookup_cons, ih]
      cases k == p.1 <;> rfl

theorem lookup_builtColumns_none {parts : List (String × Series)} {k : String}
    (h : parts.lookup k = none) (ds : Finset Nat) : (builtColumns ds parts).lookup k = none := by
  induction parts generalizing ds with
  | nil => rfl
  | cons p ps ih =>
      rw [List.lookup_cons] at h
      rw [builtColumns, List.lookup_cons]
      cases hName : k == p.1 with
      | true =>
          rw [hName] at h
          cases h
      | false =>
          rw [hName] at h
          exact ih h _

theorem withSpread_none {fr : Frame} (h : fr.columns.lookup "treasury_10y" = none ∨ read "^IRX" = none) :
    withSpread read fr = fr := by
  rw [withSpread]
  split
  · rename_i hTnx hIrx
    rcases h with hNone | hNone
    · rw [hTnx] at hNone
      cases hNone
    · rw [hIrx] at hNone
      cases hNone
  · rfl

theorem withSpread_some {fr : Frame} {treasury : Column} {irx : Series}
    (hTreasury : fr.columns.lookup "treasury_10y" = some treasury) (hIrx : read "^IRX" = some irx)
    (hProper : irx.Proper) :
    withSpread read fr = ⟨fr.ds ∪ irx.days, fr.columns ++ [("yield_spread", fun d =>
      (treasury d).sub (onRows .nan (fr.ds ∪ irx.days) irx.inForce d))]⟩ := by
  rw [withSpread, hTreasury, hIrx]
  dsimp only
  rw [hProper.fillBoth_eq Finset.subset_union_right]

/-- The columns of a cached frame, each filled on all its days. -/
def cachedColumns (read : String → Option Series) (ds : Finset Nat) : List (String × Column) :=
  ((macroParts read).map fun p => (p.1, onRows .nan ds p.2.inForce)) ++
    ((yields read).map fun y => ("yield_spread", onRows .nan ds (spreadOn y.1 y.2))).toList

/-- The spread of the columns that are built: the yield is there on the days joined with it. -/
def builtSpread (base ds : Finset Nat) (tnx irx : Series) : Column := fun t =>
  (onRows .nan (base ∪ tnx.days) tnx.inForce t).sub (onRows .nan ds irx.inForce t)

theorem nan_sub (x : PyFloat) : PyFloat.nan.sub x = .nan := by
  cases x <;> rfl

theorem sub_nan (x : PyFloat) : x.sub .nan = .nan := by
  cases x <;> rfl

theorem Series.Proper.inForce_number (h : s.Proper) (hSome : s.closeDays.Nonempty) (t : Nat) :
    ∃ x, s.inForce t = .number x := by
  rw [inForce, valueAt]
  cases hPlace : place s.closeDays t with
  | none => exact absurd (place_eq_none_iff.mp hPlace) hSome.ne_empty
  | some d => exact h.finite d (mem_known.mp (place_cases hPlace).1).2

theorem elim_const {α β : Type} (o : Option α) (b : β) : (o.elim b fun _ => b) = b := by
  cases o <;> rfl

theorem valueAt_rawSpread {tnx irx : Series} (hTnx : tnx.Proper) (hIrx : irx.Proper)
    (hSub : tnx.days ⊆ ds) :
    valueAt .nan (known .nan ds fun d => (tnx.value d).sub (onRows .nan ds irx.inForce d))
        (fun d => (tnx.value d).sub (onRows .nan ds irx.inForce d)) = spreadOn tnx irx := by
  have hSpread : ∀ d ∈ ds, onRows .nan ds irx.inForce d = irx.inForce d :=
    fun d hd => onRows_of_mem hd
  by_cases hSome : irx.closeDays.Nonempty
  · have hKnown : known .nan ds (fun d => (tnx.value d).sub (onRows .nan ds irx.inForce d)) =
        tnx.closeDays := by
      rw [← hTnx.known_eq hSub]
      ext d
      rw [mem_known, mem_known]
      refine and_congr_right fun hd => not_congr ?_
      rw [hSpread d hd]
      obtain ⟨y, hy⟩ := hIrx.inForce_number hSome d
      rw [hy]
      cases hValue : tnx.value d with
      | nan => exact iff_of_true rfl rfl
      | inf negative => exact iff_of_false (by simp [PyFloat.sub, PyFloat.neg, PyFloat.add]) (by simp)
      | number x => exact iff_of_false (by simp [PyFloat.sub, PyFloat.neg, PyFloat.add]) (by simp)
    funext t
    rw [hKnown, valueAt, spreadOn]
    cases hPlace : place tnx.closeDays t with
    | none => rfl
    | some d =>
        rw [Option.elim_some, Option.elim_some,
          hSpread d (hSub (known_subset (place_cases hPlace).1))]
  · rw [Finset.not_nonempty_iff_eq_empty] at hSome
    have hNan : (fun d => (tnx.value d).sub (onRows .nan ds irx.inForce d)) = fun _ => .nan := by
      funext d
      rw [inForce_of_empty hSome, onRows, ite_self, sub_nan]
    funext t
    rw [hNan, spreadOn, inForce_of_empty hSome, valueAt]
    simp only [sub_nan, elim_const]

theorem mergeCached_macroFrame (hProper : ∀ sym s, read sym = some s → s.Proper)
    (hSome : macroParts read ≠ []) (fr : Frame) :
    ∃ macroDf, macroFrame read = some macroDf ∧ mergeCached fr macroDf =
      ⟨fr.ds ∪ macroDays read, fr.columns ++ cachedColumns read (fr.ds ∪ macroDays read)⟩ := by
  have hParts : ∀ p ∈ macroParts read, p.2.Proper := by
    intro p hp
    obtain ⟨sym, -, hRead⟩ := List.mem_filterMap.mp hp
    obtain ⟨s, hs, rfl⟩ := Option.map_eq_some_iff.mp hRead
    exact hProper sym.1 s hs
  have hDays : ∀ p ∈ macroParts read, p.2.days ⊆ daysOf (macroParts read) :=
    fun p hp => days_subset_daysOf hp
  have hFilled : ∀ ds ds' : Finset Nat, daysOf (macroParts read) ⊆ ds → ds ⊆ ds' →
      (macroParts read).map (fun p => (p.1, fillBoth .nan ds' (fillBoth .nan ds p.2.value))) =
        (macroParts read).map fun p => (p.1, onRows .nan ds' p.2.inForce) := by
    intro ds ds' hSub hSub'
    refine List.map_congr_left fun p hp => ?_
    rw [(hParts p hp).fillBoth_fillBoth ((hDays p hp).trans hSub) hSub']
  have hLookup : ((macroParts read).map fun p => (p.1, p.2.value)).lookup "treasury_10y" =
      (read "^TNX").map Series.value := by
    rw [lookup_map_snd, lookup_macroParts]
  rw [macroFrame, if_neg hSome, foldl_join_raw, Finset.empty_union, List.nil_append]
  refine ⟨_, rfl, ?_⟩
  cases hYields : yields read with
  | none =>
      have hNone := yields_eq_none_iff.mp hYields
      rw [withSpread_none (by rw [hLookup, Option.map_eq_none_iff]; exact hNone),
        mergeCached_eq _ _ (by simpa using hSome)]
      simp only [macroDays, cachedColumns, hYields, Option.elim_none, Finset.union_empty,
        Option.map_none, Option.toList_none, List.append_nil, List.map_map, Function.comp_def]
      rw [hFilled _ _ (Finset.Subset.refl _) Finset.subset_union_right]
  | some y =>
      obtain ⟨tnx, irx⟩ := y
      obtain ⟨hTnx, hIrx⟩ := yields_eq_some_iff.mp hYields
      rw [hTnx, Option.map_some] at hLookup
      have hFirst : tnx.days ⊆ daysOf (macroParts read) := by
        obtain ⟨rest, hRest⟩ := macroParts_of_some hTnx
        exact hDays ("treasury_10y", tnx) (by rw [hRest]; exact List.mem_cons_self ..)
      rw [withSpread_some hLookup hIrx (hProper _ _ hIrx), mergeCached_eq _ _ (by simp)]
      simp only [macroDays, cachedColumns, hYields, Option.elim_some, Option.map_some,
        Option.toList_some, List.map_append, List.map_map, Function.comp_def, List.map_cons,
        List.map_nil]
      rw [hFilled _ _ Finset.subset_union_left Finset.subset_union_right,
        fillBoth_fillBoth Finset.subset_union_right,
        valueAt_rawSpread (hProper _ _ hTnx) (hProper _ _ hIrx)
          (hFirst.trans Finset.subset_union_left)]

/-- What the columns add that are built without a cache. -/
theorem mergeBuilt_eq (hProper : ∀ sym s, read sym = some s → s.Proper) {fr : Frame}
    (hBase : fr.columns.lookup "treasury_10y" = none) :
    mergeBuilt read fr = ⟨fr.ds ∪ macroDays read, fr.columns ++
      (builtColumns fr.ds (macroParts read) ++ ((yields read).map fun y =>
        ("yield_spread", builtSpread fr.ds (fr.ds ∪ macroDays read) y.1 y.2)).toList)⟩ := by
  have hParts : ∀ p ∈ macroParts read, p.2.Proper := by
    intro p hp
    obtain ⟨sym, -, hRead⟩ := List.mem_filterMap.mp hp
    obtain ⟨s, hs, rfl⟩ := Option.map_eq_some_iff.mp hRead
    exact hProper sym.1 s hs
  have hLookup : (fr.columns ++ builtColumns fr.ds (macroParts read)).lookup "treasury_10y" =
      (read "^TNX").map fun tnx => onRows .nan (fr.ds ∪ tnx.days) tnx.inForce := by
    rw [List.lookup_append, hBase, Option.none_or]
    cases hTnx : read "^TNX" with
    | none => exact lookup_builtColumns_none (lookup_macroParts.trans hTnx) _
    | some tnx =>
        obtain ⟨rest, hRest⟩ := macroParts_of_some hTnx
        rw [hRest, builtColumns, List.lookup_cons_self]
        rfl
  rw [mergeBuilt, foldl_join_filled hParts]
  cases hYields : yields read with
  | none =>
      have hNone := yields_eq_none_iff.mp hYields
      rw [withSpread_none (by rw [hLookup, Option.map_eq_none_iff]; exact hNone)]
      simp [macroDays, hYields]
  | some y =>
      obtain ⟨tnx, irx⟩ := y
      obtain ⟨hTnx, hIrx⟩ := yields_eq_some_iff.mp hYields
      rw [hTnx, Option.map_some] at hLookup
      rw [withSpread_some hLookup hIrx (hProper _ _ hIrx)]
      simp only [macroDays, hYields, Option.elim_some, Option.map_some, Option.toList_some,
        Finset.union_assoc, List.append_assoc]
      rfl

/-! ### Agreement -/

/-- Each series that has a close has a row, its own or of what is joined before it, on every day. -/
def Covered (all : Finset Nat) : Finset Nat → List (String × Series) → Prop
  | _, [] => True
  | ds, p :: ps =>
      (p.2.closeDays.Nonempty → all ⊆ ds ∪ p.2.days) ∧ Covered all (ds ∪ p.2.days) ps

/-- On the days of VIX and the index, and of the macro series: each macro series is covered, and the
T-bill is on every day where it was on the day of the 10-year yield in force. -/
structure MacroAgree (base : Finset Nat) (read : String → Option Series) : Prop where
  covered : Covered (base ∪ macroDays read) base (macroParts read)
  spread : ∀ tnx irx, yields read = some (tnx, irx) → ∀ t d, place tnx.closeDays t = some d →
    irx.inForce d = irx.inForce t

theorem Covered.union {all : Finset Nat} {parts : List (String × Series)}
    (h : Covered all ds parts) (more : Finset Nat) : Covered (all ∪ more) (ds ∪ more) parts := by
  induction parts generalizing ds with
  | nil => trivial
  | cons p ps ih =>
      obtain ⟨hHead, hRest⟩ := h
      have hSwap : ds ∪ more ∪ p.2.days = ds ∪ p.2.days ∪ more := Finset.union_right_comm ..
      refine ⟨fun hSome => ?_, ?_⟩
      · rw [hSwap]
        exact Finset.union_subset_union_left (hHead hSome)
      · rw [hSwap]
        exact ih hRest

theorem onRows_inForce_of_covered {all : Finset Nat}
    (h : s.closeDays.Nonempty → all ⊆ ds ∪ s.days) (hSub : ds ∪ s.days ⊆ all) :
    onRows .nan (ds ∪ s.days) s.inForce = onRows .nan all s.inForce := by
  by_cases hSome : s.closeDays.Nonempty
  · rw [hSub.antisymm (h hSome)]
  · rw [Finset.not_nonempty_iff_eq_empty] at hSome
    rw [inForce_of_empty hSome]
    funext t
    rw [onRows, onRows, ite_self, ite_self]

theorem Covered.builtColumns_eq {all : Finset Nat} {parts : List (String × Series)}
    (h : Covered all ds parts) (hSub : ds ∪ daysOf parts ⊆ all) :
    builtColumns ds parts = parts.map fun p => (p.1, onRows .nan all p.2.inForce) := by
  induction parts generalizing ds with
  | nil => rfl
  | cons p ps ih =>
      obtain ⟨hHead, hRest⟩ := h
      rw [daysOf, List.foldr_cons, ← Finset.union_assoc] at hSub
      rw [builtColumns, ih hRest hSub, List.map_cons,
        onRows_inForce_of_covered hHead (Finset.subset_union_left.trans hSub)]

/-- When the days agree, the two ways give the same columns, on whichever days more. -/
theorem MacroAgree.columns_eq {base : Finset Nat} (h : MacroAgree base read) (more : Finset Nat) :
    builtColumns (base ∪ more) (macroParts read) ++ ((yields read).map fun y =>
        ("yield_spread", builtSpread (base ∪ more) (base ∪ more ∪ macroDays read) y.1 y.2)).toList =
      cachedColumns read (base ∪ more ∪ macroDays read) := by
  have hCovered := h.covered.union more
  rw [Finset.union_right_comm] at hCovered
  have hParts : base ∪ more ∪ daysOf (macroParts read) ⊆ base ∪ more ∪ macroDays read :=
    Finset.union_subset_union_right Finset.subset_union_left
  rw [hCovered.builtColumns_eq hParts, cachedColumns]
  cases hYields : yields read with
  | none => rfl
  | some y =>
      obtain ⟨tnx, irx⟩ := y
      obtain ⟨rest, hRest⟩ := macroParts_of_some (yields_eq_some_iff.mp hYields).1
      rw [hRest] at hCovered
      have hFirst : base ∪ more ∪ tnx.days ⊆ base ∪ more ∪ macroDays read := by
        refine Finset.union_subset_union_right ?_
        rw [macroDays, hRest, daysOf, List.foldr_cons]
        exact Finset.subset_union_left.trans Finset.subset_union_left
      have hSpread : builtSpread (base ∪ more) (base ∪ more ∪ macroDays read) tnx irx =
          onRows .nan (base ∪ more ∪ macroDays read) (spreadOn tnx irx) := by
        funext t
        rw [builtSpread, onRows_inForce_of_covered hCovered.1 hFirst]
        by_cases hRow : t ∈ base ∪ more ∪ macroDays read
        · rw [onRows_of_mem hRow, onRows_of_mem hRow, onRows_of_mem hRow, spreadOn, Series.inForce,
            valueAt]
          cases hPlace : place tnx.closeDays t with
          | none => exact nan_sub _
          | some d => rw [Option.elim_some, Option.elim_some, h.spread tnx irx hYields t d hPlace]
        · rw [onRows_of_notMem hRow, onRows_of_notMem hRow, onRows_of_notMem hRow, nan_sub]
      rw [Option.map_some, Option.map_some, hSpread]

def valuesOn (t : Nat) (cs : List (String × Column)) : List (String × PyFloat) :=
  cs.map fun c => (c.1, c.2 t)

/-- Where the two ways agree on all days, the days are covered. -/
theorem covered_of_valuesOn {all : Finset Nat} {parts : List (String × Series)}
    (h : ∀ t ∈ all, valuesOn t (builtColumns ds parts) =
      valuesOn t (parts.map fun p => (p.1, onRows .nan all p.2.inForce))) :
    Covered all ds parts := by
  induction parts generalizing ds with
  | nil => trivial
  | cons p ps ih =>
      refine ⟨fun hSome t ht => ?_, ih fun t ht => (List.cons.inj (h t ht)).2⟩
      by_contra hOut
      have hHead := congrArg Prod.snd (List.cons.inj (h t ht)).1
      change onRows .nan (ds ∪ p.2.days) p.2.inForce t = onRows .nan all p.2.inForce t at hHead
      rw [onRows_of_notMem hOut, onRows_of_mem ht] at hHead
      exact valueAt_ne_missing hSome t hHead.symm

end Macro

/-! ## The index -/

section Index

/-- No two closes differ. -/
def ConstantCloses (df : List (OhlcvRow ℚ)) : Prop :=
  ∀ r ∈ df, ∀ r' ∈ df, ∀ x y, r.close = some x → r'.close = some y → x = y

theorem mem_of_lookup {α : Type} {l : List (Nat × α)} {k : Nat} {x : α} (h : l.lookup k = some x) :
    (k, x) ∈ l := by
  obtain ⟨before, after, rfl, -⟩ := List.lookup_eq_some_iff.mp h
  exact List.mem_append_right _ (List.mem_cons_self ..)

theorem pctChange_constant {c : ℚ} {df : List (OhlcvRow ℚ)}
    (h : ∀ r ∈ df, ∀ x, r.close = some x → x = c) {prev : PyFloat}
    (hPrev : prev = .nan ∨ prev = .number c) :
    ∀ p ∈ pctChange prev df, p.2 = .nan ∨ p.2 = .number 0 := by
  induction df generalizing prev with
  | nil => intro p hp; cases hp
  | cons r rs ih =>
      obtain ⟨hHead, hRest⟩ := List.forall_mem_cons.mp h
      have hClose : toFloat r.close = .nan ∨ toFloat r.close = .number c := by
        cases hValue : r.close with
        | none => exact Or.inl rfl
        | some x => exact Or.inr (congrArg PyFloat.number (hHead x hValue))
      intro p hp
      rw [pctChange] at hp
      rcases List.mem_cons.mp hp with rfl | hLater
      · rcases hClose with hNan | hNumber
        · left
          rw [hNan]
          cases prev <;> rfl
        · rcases hPrev with rfl | rfl
          · left
            rw [hNumber]
            rfl
          · rw [hNumber]
            by_cases hZero : c = 0
            · left
              simp [PyFloat.div, hZero, PyFloat.sub, PyFloat.neg, PyFloat.add, PyFloat.mul]
            · right
              simp [PyFloat.div, hZero, PyFloat.sub, PyFloat.neg, PyFloat.add, PyFloat.mul]
      · exact ih hRest hClose p hLater

theorem indexReturns_constant {df : List (OhlcvRow ℚ)} (h : ConstantCloses df) (d : Nat) :
    indexReturns df d = .nan ∨ indexReturns df d = .number 0 := by
  have hSome : ∃ c, ∀ r ∈ df, ∀ x, r.close = some x → x = c := by
    by_cases hClose : ∃ r ∈ df, ∃ c, r.close = some c
    · obtain ⟨r, hr, c, hc⟩ := hClose
      exact ⟨c, fun r' hr' x hx => h r' hr' r hr x c hx hc⟩
    · exact ⟨0, fun r hr x hx => absurd ⟨r, hr, x, hx⟩ hClose⟩
  obtain ⟨c, hc⟩ := hSome
  rw [indexReturns]
  cases hLookup : (pctChange .nan df).lookup d with
  | none => exact Or.inl rfl
  | some x =>
      have hMem : (d, x) ∈ pctChange .nan df := mem_of_lookup hLookup
      exact pctChange_constant hc (Or.inl rfl) (d, x) hMem

theorem ffillOr_constant {ds : Finset Nat} {f : Column} (h : ∀ d, f d = .nan ∨ f d = .number 0) :
    ffillOr .nan (.number 0) ds f = onRows .nan ds fun _ => .number 0 := by
  funext t
  by_cases hRow : t ∈ ds
  · rw [ffillOr, onRows_of_mem hRow, onRows_of_mem hRow]
    split
    · rfl
    · rename_i hValue
      rw [ffill_eq hRow] at hValue ⊢
      split at hValue
      · rename_i hSome
        rw [if_pos hSome]
        rw [valueAt] at hValue ⊢
        cases hPlace : place (known .nan ds f) t with
        | none =>
            rw [hPlace] at hValue
            exact absurd rfl hValue
        | some d =>
            rw [hPlace, Option.elim_some] at hValue
            rw [Option.elim_some]
            exact (h d).resolve_left hValue
      · exact absurd rfl hValue
  · rw [ffillOr, onRows_of_notMem hRow, onRows_of_notMem hRow]

theorem exists_row_of_mem_pctChange {prev : PyFloat} {df : List (OhlcvRow ℚ)} {d : Nat} {x : PyFloat}
    (h : (d, x) ∈ pctChange prev df) : ∃ r ∈ df, r.date = d ∧ (r.close = none → x = .nan) := by
  induction df generalizing prev with
  | nil => cases h
  | cons r rs ih =>
      rw [pctChange] at h
      rcases List.mem_cons.mp h with hHere | hLater
      · obtain ⟨hDay, hValue⟩ := Prod.mk.inj hHere
        refine ⟨r, List.mem_cons_self .., hDay.symm, fun hNone => ?_⟩
        rw [hValue, hNone]
        cases prev <;> rfl
      · obtain ⟨r', hr', hRow⟩ := ih hLater
        exact ⟨r', List.mem_cons_of_mem _ hr', hRow⟩

theorem change_ne {x y : ℚ} (h : x ≠ y) :
    PyFloat.mul (.sub (.div (.number y) (.number x)) (.number 1)) (.number 100) ≠ .nan ∧
      PyFloat.mul (.sub (.div (.number y) (.number x)) (.number 1)) (.number 100) ≠ .number 0 := by
  by_cases hZero : x = 0
  · have hOther : y ≠ 0 := fun hy => h (hZero.trans hy.symm)
    simp [PyFloat.div, hZero, hOther, PyFloat.sub, PyFloat.neg, PyFloat.add, PyFloat.mul,
      PyFloat.isZero]
  · have hQuotient : y / x + -1 ≠ 0 := by
      intro hSame
      have hOne : y / x = 1 := by linarith
      exact h ((div_eq_one_iff_eq hZero).mp hOne).symm
    simp [PyFloat.div, hZero, PyFloat.sub, PyFloat.neg, PyFloat.add, PyFloat.mul, hQuotient]

/-- With two closes that differ, the first close of all has a return in one order of the rows, and none
in another. -/
theorem exists_orders {df : List (OhlcvRow ℚ)} (hDays : (df.map OhlcvRow.date).Nodup)
    (h : ¬ConstantCloses df) {ds : Finset Nat} (hSub : days df ⊆ ds) :
    ∃ df₁ df₂, df₁.Perm df ∧ df₂.Perm df ∧ ∃ t ∈ ds,
      ffillOr .nan (.number 0) ds (indexReturns df₁) t ≠
        ffillOr .nan (.number 0) ds (indexReturns df₂) t := by
  obtain ⟨a, ha, b, hb, x, y, hx, hy, hDiffer⟩ : ∃ a ∈ df, ∃ b ∈ df, ∃ x y,
      a.close = some x ∧ b.close = some y ∧ x ≠ y := by
    by_contra hNone
    refine h fun r hr r' hr' x y hx hy => ?_
    by_contra hDiffer
    exact hNone ⟨r, hr, r', hr', x, y, hx, hy, hDiffer⟩
  -- The first row with a close, and one with another close.
  have hClosed : ((df.filter (·.close.isSome)).toFinset).Nonempty :=
    ⟨a, List.mem_toFinset.mpr (List.mem_filter.mpr ⟨ha, by rw [hx]; rfl⟩)⟩
  obtain ⟨e, he, hFirst⟩ := Finset.exists_min_image _ OhlcvRow.date hClosed
  obtain ⟨heMem, heClose⟩ := List.mem_filter.mp (List.mem_toFinset.mp he)
  obtain ⟨ce, hce⟩ := Option.isSome_iff_exists.mp heClose
  obtain ⟨r, hr, cr, hcr, hOther⟩ : ∃ r ∈ df, ∃ cr, r.close = some cr ∧ cr ≠ ce := by
    by_cases hSame : x = ce
    · exact ⟨b, hb, y, hy, fun hyce => hDiffer (hSame.trans hyce.symm)⟩
    · exact ⟨a, ha, x, hx, hSame⟩
  have hNe : e ≠ r := by
    rintro rfl
    rw [hce] at hcr
    exact hOther (Option.some.inj hcr).symm
  have hDayNe : e.date ≠ r.date := fun hDay => hNe (List.inj_on_of_nodup_map hDays heMem hr hDay)
  have hRow : e.date ∈ ds := hSub (List.mem_toFinset.mpr (List.mem_map_of_mem heMem))
  have hPerm₁ : (r :: e :: (df.erase r).erase e).Perm df :=
    ((List.perm_cons_erase ((List.mem_erase_of_ne hNe).mpr heMem)).cons r).symm.trans
      (List.perm_cons_erase hr).symm
  have hPerm₂ : (e :: df.erase e).Perm df := (List.perm_cons_erase heMem).symm
  refine ⟨_, _, hPerm₁, hPerm₂, e.date, hRow, ?_⟩
  obtain ⟨hNumber, hNotZero⟩ := change_ne hOther
  -- After the other close the return is a change.
  have hReturn : indexReturns (r :: e :: (df.erase r).erase e) e.date =
      PyFloat.mul (.sub (.div (.number ce) (.number cr)) (.number 1)) (.number 100) := by
    rw [indexReturns, pctChange, List.lookup_cons, beq_false_of_ne hDayNe, pctChange]
    simp only [List.lookup_cons_self, hce, hcr, toFloat, Option.getD_some]
  have hThere : ffillOr .nan (.number 0) ds (indexReturns (r :: e :: (df.erase r).erase e)) e.date =
      PyFloat.mul (.sub (.div (.number ce) (.number cr)) (.number 1)) (.number 100) := by
    have hKnown : e.date ∈ known .nan ds (indexReturns (r :: e :: (df.erase r).erase e)) :=
      mem_known.mpr ⟨hRow, by rw [hReturn]; exact hNumber⟩
    have hFill : ffill .nan ds (indexReturns (r :: e :: (df.erase r).erase e)) e.date =
        PyFloat.mul (.sub (.div (.number ce) (.number cr)) (.number 1)) (.number 100) := by
      rw [ffill_eq hRow, if_pos ⟨_, hKnown, le_rfl⟩, valueAt, place_self hKnown, Option.elim_some,
        hReturn]
    rw [ffillOr, onRows_of_mem hRow, hFill, if_neg hNumber]
  -- As the first row it has none, and no row before it has one.
  have hNone : ffillOr .nan (.number 0) ds (indexReturns (e :: df.erase e)) e.date = .number 0 := by
    have hBefore : ¬∃ d ∈ known .nan ds (indexReturns (e :: df.erase e)), d ≤ e.date := by
      rintro ⟨d, hd, hLe⟩
      refine (mem_known.mp hd).2 ?_
      rw [indexReturns]
      rcases hLe.eq_or_lt with rfl | hLt
      · rw [pctChange, List.lookup_cons_self, hce]
        rfl
      · cases hLookup : (pctChange .nan (e :: df.erase e)).lookup d with
        | none => rfl
        | some v =>
            obtain ⟨q, hq, hDay, hNan⟩ := exists_row_of_mem_pctChange (mem_of_lookup hLookup)
            refine hNan ?_
            by_contra hSome
            have hLe' := hFirst q (List.mem_toFinset.mpr (List.mem_filter.mpr
              ⟨hPerm₂.mem_iff.mp hq, Option.isSome_iff_ne_none.mpr hSome⟩))
            omega
    rw [ffillOr, onRows_of_mem hRow, ffill_eq hRow, if_neg hBefore, if_pos rfl]
  rw [hThere, hNone]
  exact hNotZero

end Index

/-! ## Calls over one store -/

section Store

/-- The series of the stored rows, whatever their order. -/
def storedSeries (stored : List (OhlcvRow ℚ)) : String → Option Series :=
  fun sym => part (bulkRows stored sym)

/-- The days of VIX and the index. -/
def marketDays (scope : Scope) (stored : List (OhlcvRow ℚ)) : Finset Nat :=
  days (bulkRows stored scope.vixSym) ∪ days (bulkRows stored scope.idxSym)

variable {scope : Scope} {stored : List (OhlcvRow ℚ)} {c : Caches} {call : Call}

theorem proper_part {df : List (OhlcvRow ℚ)} {s : Series} (h : part df = some s) : s.Proper := by
  rw [part] at h
  split at h
  · cases h
  obtain rfl := Option.some.inj h
  refine ⟨fun d hOut => closes_of_notMem hOut, fun d hValue => ?_⟩
  change ∃ x, closes df d = .number x
  change closes df d ≠ .nan at hValue
  rw [closes] at hValue ⊢
  cases hFind : df.find? (·.date = d) with
  | none =>
      rw [hFind] at hValue
      exact absurd rfl hValue
  | some r =>
      rw [hFind] at hValue
      cases hClose : r.close with
      | none =>
          simp [hClose, toFloat] at hValue
      | some x => exact ⟨x, by simp [hClose, toFloat]⟩

structure Right (scope : Scope) (stored : List (OhlcvRow ℚ)) (c : Caches) : Prop where
  market : ∀ frames, c.market = some frames →
    frames.1.Perm (bulkRows stored scope.vixSym) ∧ frames.2.Perm (bulkRows stored scope.idxSym)
  macroDf : ∀ fr, c.macroDf = some fr → macroFrame (storedSeries stored) = some fr

theorem storedSeries_bulk (hKeys : (stored.map OhlcvRow.key).Nodup) (hRows : call.rows.Perm stored) :
    (fun sym => part (bulkRows call.rows sym)) = storedSeries stored := by
  funext sym
  exact (part_perm (bulkRows_perm hRows.symm sym) (nodup_days hKeys sym)).symm

theorem storedSeries_getOhlcv (hKeys : (stored.map OhlcvRow.key).Nodup)
    (hRows : call.rows.Perm stored) :
    (fun sym => part (getOhlcv call.rows sym)) = storedSeries stored := by
  funext sym
  exact (part_perm ((getOhlcv_perm call.rows sym).trans (bulkRows_perm hRows sym)).symm
    (nodup_days hKeys sym)).symm

/-- The market frames of a call hold the stored rows. -/
theorem Right.loadMarket (h : Right scope stored c) (hKeys : (stored.map OhlcvRow.key).Nodup)
    (hRows : call.rows.Perm stored) :
    (loadMarket scope c call).1.1.Perm (bulkRows stored scope.vixSym) ∧
      (loadMarket scope c call).1.2.Perm (bulkRows stored scope.idxSym) ∧
      Right scope stored (loadMarket scope c call).2 := by
  have hRead : ∀ sym, ((if call.bulkFails then getOhlcv call.rows else bulkRows call.rows) sym).Perm
      (bulkRows stored sym) := by
    intro sym
    cases call.bulkFails with
    | true => exact (getOhlcv_perm call.rows sym).trans (bulkRows_perm hRows sym)
    | false => exact bulkRows_perm hRows sym
  rw [Regressors.loadMarket]
  split
  · rename_i frames hHit
    split at hHit
    · cases hHit
    · exact ⟨(h.market frames hHit).1, (h.market frames hHit).2, h⟩
  · dsimp only
    generalize (if call.bulkFails then getOhlcv call.rows else bulkRows call.rows) = read at hRead ⊢
    refine ⟨hRead _, hRead _, ⟨fun frames hFrames => ?_, fun fr hFr => ?_⟩⟩
    · dsimp only at hFrames
      split at hFrames
      · cases hFrames
      · obtain rfl := Option.some.inj hFrames
        exact ⟨hRead _, hRead _⟩
    · dsimp only at hFr
      split at hFr
      · exact h.macroDf fr hFr
      · rw [storedSeries_bulk hKeys hRows, Option.or_eq_some_iff] at hFr
        exact hFr.elim id fun hOld => h.macroDf fr hOld.2

/-- The macro columns come from the one cached frame there can be, or are built of the same series. -/
theorem Right.mergeMacroRegressors (h : Right scope stored c)
    (hKeys : (stored.map OhlcvRow.key).Nodup) (hRows : call.rows.Perm stored) (fr : Frame) :
    Right scope stored (mergeMacroRegressors c call fr).2 ∧
      ((∃ macroDf, macroFrame (storedSeries stored) = some macroDf ∧
          (mergeMacroRegressors c call fr).1 = mergeCached fr macroDf) ∨
        (mergeMacroRegressors c call fr).1 = mergeBuilt (storedSeries stored) fr) := by
  rw [Regressors.mergeMacroRegressors]
  split
  · rename_i macroDf hHit
    split at hHit
    · cases hHit
    · exact ⟨h, Or.inl ⟨macroDf, h.macroDf macroDf hHit, rfl⟩⟩
  · rw [storedSeries_getOhlcv hKeys hRows]
    refine ⟨⟨h.market, fun fr hFr => ?_⟩, Or.inr rfl⟩
    rw [Option.or_eq_some_iff] at hFr
    exact hFr.elim id fun hOld => h.macroDf fr hOld.2

theorem perm_eq_nil_iff {df df' : List (OhlcvRow ℚ)} (h : df.Perm df') : df = [] ↔ df' = [] := by
  constructor
  · rintro rfl
    exact List.perm_nil.mp h.symm
  · rintro rfl
    exact List.perm_nil.mp h

/-- The live fetch is used when VIX or the index has no rows. -/
def Live (scope : Scope) (stored : List (OhlcvRow ℚ)) : Prop :=
  bulkRows stored scope.vixSym = [] ∨ bulkRows stored scope.idxSym = []

/-- The frame of VIX, an order of the index rows, and sentiment. -/
def baseFrame (scope : Scope) (stored idx : List (OhlcvRow ℚ)) (sentiment : List (Nat × Option ℚ)) :
    Frame :=
  withSentiment sentiment (marketFrame (bulkRows stored scope.vixSym) idx)

theorem Right.loadRegressors (h : Right scope stored c) (hKeys : (stored.map OhlcvRow.key).Nodup)
    (hRows : call.rows.Perm stored) :
    Right scope stored (loadRegressors scope c call).2 ∧
      (Live scope stored →
        (loadRegressors scope c call).1 = call.live.map (withSentiment call.sentiment)) ∧
      (¬Live scope stored → (loadRegressors scope c call).1 =
        some (Regressors.mergeMacroRegressors (Regressors.loadMarket scope c call).2 call
          (baseFrame scope stored (Regressors.loadMarket scope c call).1.2 call.sentiment)).1) := by
  obtain ⟨hVix, hIdx, hRight⟩ := h.loadMarket hKeys hRows
  rw [Regressors.loadRegressors]
  rcases hMarket : Regressors.loadMarket scope c call with ⟨⟨vix, idx⟩, c'⟩
  rw [hMarket] at hVix hIdx hRight
  have hLive : (vix = [] ∨ idx = []) ↔ Live scope stored :=
    or_congr (perm_eq_nil_iff hVix) (perm_eq_nil_iff hIdx)
  dsimp only
  by_cases hEmpty : vix = [] ∨ idx = []
  · rw [if_pos hEmpty]
    exact ⟨hRight, fun _ => rfl, fun hNot => absurd (hLive.mp hEmpty) hNot⟩
  · rw [if_neg hEmpty]
    have hBase : withSentiment call.sentiment (marketFrame vix idx) =
        baseFrame scope stored idx call.sentiment := by
      rw [baseFrame, marketFrame, marketFrame, days_perm hVix,
        closes_perm hVix.symm (nodup_days hKeys _)]
    obtain ⟨hAfter, -⟩ := hRight.mergeMacroRegressors hKeys hRows
      (baseFrame scope stored idx call.sentiment)
    rw [hBase]
    exact ⟨hAfter, fun hLiveHere => absurd (hLive.mpr hLiveHere) hEmpty, fun _ => rfl⟩

theorem right_cachesAfter (hKeys : (stored.map OhlcvRow.key).Nodup) (calls : List Call)
    (hRows : ∀ call ∈ calls, call.rows.Perm stored) :
    Right scope stored (cachesAfter scope calls) := by
  have hAll : ∀ (calls : List Call) (c : Caches), (∀ call ∈ calls, call.rows.Perm stored) →
      Right scope stored c →
        Right scope stored (calls.foldl (fun c call => (Regressors.loadRegressors scope c call).2) c) := by
    intro calls
    induction calls with
    | nil => exact fun _ _ h => h
    | cons call rest ih =>
        intro c hPerm h
        obtain ⟨hHead, hRest⟩ := List.forall_mem_cons.mp hPerm
        exact ih _ hRest (h.loadRegressors hKeys hHead).1
  exact hAll calls cold hRows ⟨fun _ hNone => (by cases hNone), fun _ hNone => (by cases hNone)⟩

/-! ### The frames before the macro columns -/

theorem baseFrame_ds {idx : List (OhlcvRow ℚ)} (hIdx : idx.Perm (bulkRows stored scope.idxSym))
    (sentiment : List (Nat × Option ℚ)) :
    (baseFrame scope stored idx sentiment).ds =
      marketDays scope stored ∪ (sentiment.map Prod.fst).toFinset := by
  rw [baseFrame, withSentiment, marketFrame, days_perm hIdx]
  split
  · rename_i hNone
    rw [hNone, List.map_nil, List.toFinset_nil, Finset.union_empty]
    rfl
  · rfl

theorem lookup_baseFrame (idx : List (OhlcvRow ℚ)) (sentiment : List (Nat × Option ℚ)) :
    (baseFrame scope stored idx sentiment).columns.lookup "treasury_10y" = none := by
  rw [baseFrame, withSentiment, marketFrame]
  split <;> simp [List.lookup_cons]

theorem baseFrame_constant (h : ConstantCloses (bulkRows stored scope.idxSym))
    {idx idx' : List (OhlcvRow ℚ)} (hIdx : idx.Perm (bulkRows stored scope.idxSym))
    (hIdx' : idx'.Perm (bulkRows stored scope.idxSym)) (sentiment : List (Nat × Option ℚ)) :
    baseFrame scope stored idx sentiment = baseFrame scope stored idx' sentiment := by
  have hConstant : ∀ {df : List (OhlcvRow ℚ)}, df.Perm (bulkRows stored scope.idxSym) →
      ConstantCloses df := fun hPerm r hr r' hr' =>
    h r (hPerm.mem_iff.mp hr) r' (hPerm.mem_iff.mp hr')
  rw [baseFrame, baseFrame, marketFrame, marketFrame, days_perm (hIdx.trans hIdx'.symm),
    ffillOr_constant (indexReturns_constant (hConstant hIdx)),
    ffillOr_constant (indexReturns_constant (hConstant hIdx'))]

theorem proper_storedSeries {sym : String} {s : Series} (h : storedSeries stored sym = some s) :
    s.Proper := proper_part h

/-! ### Two runs -/

/-- The training columns of a ticker are the same in any two runs over the stored rows. -/
def SameRegressors (scope : Scope) (stored : List (OhlcvRow ℚ)) : Prop :=
  ∀ (before before' : List Call) (call call' : Call) (trainDays : Finset Nat),
    (∀ f ∈ before, f.rows.Perm stored) → (∀ f ∈ before', f.rows.Perm stored) →
      call.rows.Perm stored → call'.rows.Perm stored →
        call.sentiment = call'.sentiment → call.live = call'.live →
          trainColumns trainDays (loadRegressors scope (cachesAfter scope before) call).1 =
            trainColumns trainDays (loadRegressors scope (cachesAfter scope before') call').1

/-- The closes of the index are constant, and the macro series agree. -/
structure Steady (scope : Scope) (stored : List (OhlcvRow ℚ)) : Prop where
  index : ConstantCloses (bulkRows stored scope.idxSym)
  macroAgree : MacroAgree (marketDays scope stored) (storedSeries stored)

/-- A call over steady rows has one frame. -/
theorem Steady.loadRegressors_eq (hSteady : Steady scope stored) (hLive : ¬Live scope stored)
    (hKeys : (stored.map OhlcvRow.key).Nodup) (hRight : Right scope stored c)
    (hRows : call.rows.Perm stored) :
    (Regressors.loadRegressors scope c call).1 =
      let fr := baseFrame scope stored (bulkRows stored scope.idxSym) call.sentiment
      some (mergeBuilt (storedSeries stored) fr) := by
  obtain ⟨-, hIdx, hRight'⟩ := hRight.loadMarket hKeys hRows
  rw [(hRight.loadRegressors hKeys hRows).2.2 hLive,
    baseFrame_constant hSteady.index hIdx (List.Perm.refl _)]
  refine congrArg some ?_
  have hProper : ∀ sym s, storedSeries stored sym = some s → s.Proper :=
    fun sym s h => proper_storedSeries h
  rcases (hRight'.mergeMacroRegressors hKeys hRows _).2 with ⟨macroDf, hFrame, hMerged⟩ | hMerged
  · have hSome : macroParts (storedSeries stored) ≠ [] := by
      intro hNone
      rw [macroFrame, if_pos hNone] at hFrame
      cases hFrame
    obtain ⟨macroDf', hFrame', hColumns⟩ := mergeCached_macroFrame hProper hSome
      (baseFrame scope stored (bulkRows stored scope.idxSym) call.sentiment)
    obtain rfl : macroDf = macroDf' := Option.some.inj (hFrame.symm.trans hFrame')
    rw [hMerged, hColumns, mergeBuilt_eq hProper (lookup_baseFrame _ _),
      baseFrame_ds (List.Perm.refl _), hSteady.macroAgree.columns_eq]
  · exact hMerged

theorem Steady.same (hSteady : Steady scope stored) (hLive : ¬Live scope stored)
    (hKeys : (stored.map OhlcvRow.key).Nodup) : SameRegressors scope stored := by
  intro before before' call call' trainDays hBefore hBefore' hRows hRows' hSentiment _
  rw [hSteady.loadRegressors_eq hLive hKeys (right_cachesAfter hKeys before hBefore) hRows,
    hSteady.loadRegressors_eq hLive hKeys (right_cachesAfter hKeys before' hBefore') hRows',
    hSentiment]

theorem Live.same (hLive : Live scope stored) (hKeys : (stored.map OhlcvRow.key).Nodup) :
    SameRegressors scope stored := by
  intro before before' call call' trainDays hBefore hBefore' hRows hRows' hSentiment hFetch
  have hRight : Right scope stored (cachesAfter scope before) :=
    right_cachesAfter hKeys before hBefore
  have hRight' : Right scope stored (cachesAfter scope before') :=
    right_cachesAfter hKeys before' hBefore'
  rw [(hRight.loadRegressors hKeys hRows).2.1 hLive,
    (hRight'.loadRegressors hKeys hRows').2.1 hLive, hSentiment, hFetch]

/-! ### What the runs show -/

theorem valuesOn_of_trainColumns {ds ds' : Finset Nat} {cs cs' : List (String × Column)} {t : Nat}
    (ht : t ∈ ds) (ht' : t ∈ ds')
    (h : trainColumns {t} (some ⟨ds, cs⟩) = trainColumns {t} (some ⟨ds', cs'⟩)) :
    valuesOn t cs = valuesOn t cs' := by
  have hValues : ∀ {ds : Finset Nat} (cs : List (String × Column)), t ∈ ds →
      valuesOn t (cs.map fun c => (c.1, fillBoth .nan {t} (onRows .nan ds c.2))) = valuesOn t cs := by
    intro ds cs hMem
    rw [valuesOn, valuesOn, List.map_map]
    refine List.map_congr_left fun c _ => ?_
    simp only [Function.comp_apply, fillBoth_singleton, onRows_of_mem hMem]
  rw [← hValues cs ht, ← hValues cs' ht']
  exact congrArg (valuesOn t) (Option.some.inj h)

def firstCall (rows : List (OhlcvRow ℚ)) (bulkFails : Bool) (sentiment : List (Nat × Option ℚ)) :
    Call := ⟨rows, bulkFails, false, false, sentiment, none⟩

/-- All columns come after those of VIX, the index and sentiment. -/
theorem loadRegressors_prefix (hLive : ¬Live scope stored) (hKeys : (stored.map OhlcvRow.key).Nodup)
    (hRight : Right scope stored c) (hRows : call.rows.Perm stored) :
    ∃ ds cs, (Regressors.loadRegressors scope c call).1 = some ⟨ds, (baseFrame scope stored
        (Regressors.loadMarket scope c call).1.2 call.sentiment).columns ++ cs⟩ ∧
      marketDays scope stored ⊆ ds := by
  obtain ⟨-, hIdx, hRight'⟩ := hRight.loadMarket hKeys hRows
  rw [(hRight.loadRegressors hKeys hRows).2.2 hLive]
  have hProper : ∀ sym s, storedSeries stored sym = some s → s.Proper :=
    fun sym s h => proper_storedSeries h
  have hDays : marketDays scope stored ⊆ (baseFrame scope stored
      (Regressors.loadMarket scope c call).1.2 call.sentiment).ds := by
    rw [baseFrame_ds hIdx]
    exact Finset.subset_union_left
  rcases (hRight'.mergeMacroRegressors hKeys hRows _).2 with ⟨macroDf, hFrame, hMerged⟩ | hMerged
  · have hSome : macroParts (storedSeries stored) ≠ [] := by
      intro hNone
      rw [macroFrame, if_pos hNone] at hFrame
      cases hFrame
    obtain ⟨macroDf', hFrame', hColumns⟩ := mergeCached_macroFrame hProper hSome
      (baseFrame scope stored (Regressors.loadMarket scope c call).1.2 call.sentiment)
    obtain rfl : macroDf = macroDf' := Option.some.inj (hFrame.symm.trans hFrame')
    exact ⟨_, _, congrArg some (hMerged.trans hColumns), hDays.trans Finset.subset_union_left⟩
  · exact ⟨_, _, congrArg some (hMerged.trans (mergeBuilt_eq hProper (lookup_baseFrame _ _))),
      hDays.trans Finset.subset_union_left⟩

/-- The stored rows with those of the index in front, in an order of their own. -/
def indexFirst (scope : Scope) (stored df : List (OhlcvRow ℚ)) : List (OhlcvRow ℚ) :=
  df ++ stored.filter fun r => !decide (r.ticker = scope.idxSym)

theorem indexFirst_perm {df : List (OhlcvRow ℚ)} (h : df.Perm (bulkRows stored scope.idxSym)) :
    (indexFirst scope stored df).Perm stored :=
  (h.append_right _).trans (List.filter_append_perm _ _)

theorem bulkRows_indexFirst {df : List (OhlcvRow ℚ)} (h : df.Perm (bulkRows stored scope.idxSym)) :
    bulkRows (indexFirst scope stored df) scope.idxSym = df := by
  have hAll : df.filter (·.ticker = scope.idxSym) = df :=
    List.filter_eq_self.mpr fun r hr => (List.mem_filter.mp (h.mem_iff.mp hr)).2
  rw [bulkRows, indexFirst, List.filter_append, List.filter_filter, hAll]
  simp

/-- Runs that store the index rows in different orders show it, unless its closes are constant. -/
theorem SameRegressors.index (h : SameRegressors scope stored) (hLive : ¬Live scope stored)
    (hKeys : (stored.map OhlcvRow.key).Nodup) :
    ConstantCloses (bulkRows stored scope.idxSym) := by
  by_contra hVaries
  obtain ⟨df₁, df₂, hPerm₁, hPerm₂, t, ht, hDiffer⟩ :=
    exists_orders (nodup_days hKeys scope.idxSym) hVaries
      (Finset.subset_union_right : _ ⊆ marketDays scope stored)
  have hCold : Right scope stored cold := right_cachesAfter hKeys [] fun _ hNone => by cases hNone
  have hColumn : ∀ {df : List (OhlcvRow ℚ)}, df.Perm (bulkRows stored scope.idxSym) →
      ∃ ds cs, (Regressors.loadRegressors scope cold
            (firstCall (indexFirst scope stored df) false [])).1 =
          some ⟨ds, ("vix", fillBoth .nan (marketDays scope stored)
              (closes (bulkRows stored scope.vixSym))) ::
            ("index_return", ffillOr .nan (.number 0) (marketDays scope stored) (indexReturns df)) ::
              cs⟩ ∧ marketDays scope stored ⊆ ds := by
    intro df hPerm
    have hRows : (firstCall (indexFirst scope stored df) false []).rows.Perm stored :=
      indexFirst_perm hPerm
    have hPrefix := loadRegressors_prefix hLive hKeys hCold hRows
    have hMarket : (Regressors.loadMarket scope cold
        (firstCall (indexFirst scope stored df) false [])).1.2 = df := bulkRows_indexFirst hPerm
    rw [hMarket, baseFrame, withSentiment, if_pos (by rfl), marketFrame, days_perm hPerm] at hPrefix
    exact hPrefix
  obtain ⟨ds₁, cs₁, hFrame₁, hDs₁⟩ := hColumn hPerm₁
  obtain ⟨ds₂, cs₂, hFrame₂, hDs₂⟩ := hColumn hPerm₂
  have hSame := h [] [] (firstCall (indexFirst scope stored df₁) false [])
    (firstCall (indexFirst scope stored df₂) false []) {t} (fun _ hNone => by cases hNone)
    (fun _ hNone => by cases hNone) (indexFirst_perm hPerm₁) (indexFirst_perm hPerm₂) rfl rfl
  rw [show cachesAfter scope [] = cold from rfl, hFrame₁, hFrame₂] at hSame
  have hValues := valuesOn_of_trainColumns (hDs₁ ht) (hDs₂ ht) hSame
  exact hDiffer (congrArg Prod.snd (List.cons.inj (List.cons.inj hValues).2).1)

/-- The two ways to the macro columns, on a day. -/
theorem SameRegressors.macroColumns (h : SameRegressors scope stored) (hLive : ¬Live scope stored)
    (hKeys : (stored.map OhlcvRow.key).Nodup)
    (hSome : macroParts (storedSeries stored) ≠ []) (sentiment : List (Nat × Option ℚ)) {t : Nat}
    (ht : t ∈ marketDays scope stored ∪ (sentiment.map Prod.fst).toFinset ∪
      macroDays (storedSeries stored)) :
    let base := marketDays scope stored ∪ (sentiment.map Prod.fst).toFinset
    valuesOn t (cachedColumns (storedSeries stored) (base ∪ macroDays (storedSeries stored))) =
      valuesOn t (builtColumns base (macroParts (storedSeries stored)) ++
        ((yields (storedSeries stored)).map fun y => ("yield_spread",
          builtSpread base (base ∪ macroDays (storedSeries stored)) y.1 y.2)).toList) := by
  have hConstant := h.index hLive hKeys
  have hCold : Right scope stored cold := right_cachesAfter hKeys [] fun _ hNone => by cases hNone
  have hProper : ∀ sym s, storedSeries stored sym = some s → s.Proper :=
    fun sym s h => proper_storedSeries h
  have hRows : (firstCall stored false sentiment).rows.Perm stored := List.Perm.refl _
  have hRows' : (firstCall stored true sentiment).rows.Perm stored := List.Perm.refl _
  obtain ⟨macroDf, hFrame, hMerged⟩ := mergeCached_macroFrame hProper hSome
    (baseFrame scope stored (bulkRows stored scope.idxSym) sentiment)
  -- The bulk query has filled the macro cache.
  have hCached : (Regressors.loadRegressors scope cold (firstCall stored false sentiment)).1 =
      some (mergeCached (baseFrame scope stored (bulkRows stored scope.idxSym) sentiment) macroDf) := by
    rw [(hCold.loadRegressors hKeys hRows).2.2 hLive]
    have hCache : (Regressors.loadMarket scope cold (firstCall stored false sentiment)).2.macroDf =
        some macroDf := by
      change (macroFrame (storedSeries stored)).or none = some macroDf
      rw [hFrame]
      rfl
    rw [Regressors.mergeMacroRegressors, hCache]
    rfl
  -- It fails, and the cache stays empty.
  have hBuilt : (Regressors.loadRegressors scope cold (firstCall stored true sentiment)).1 =
      some (mergeBuilt (storedSeries stored)
        (baseFrame scope stored (bulkRows stored scope.idxSym) sentiment)) := by
    obtain ⟨-, hIdx, -⟩ := hCold.loadMarket hKeys hRows'
    rw [(hCold.loadRegressors hKeys hRows').2.2 hLive,
      baseFrame_constant hConstant hIdx (List.Perm.refl _)]
    refine congrArg some ?_
    rw [← storedSeries_getOhlcv hKeys hRows']
    rfl
  have hSame := h [] [] (firstCall stored false sentiment) (firstCall stored true sentiment) {t}
    (fun _ hNone => by cases hNone) (fun _ hNone => by cases hNone) hRows hRows' rfl rfl
  rw [show cachesAfter scope [] = cold from rfl, hCached, hBuilt, hMerged,
    mergeBuilt_eq hProper (lookup_baseFrame _ _), baseFrame_ds (List.Perm.refl _)] at hSame
  have hValues := valuesOn_of_trainColumns ht ht hSame
  rw [valuesOn, valuesOn, List.map_append, List.map_append] at hValues
  exact List.append_cancel_left hValues

theorem length_builtColumns (ds : Finset Nat) (parts : List (String × Series)) :
    (builtColumns ds parts).length = parts.length := by
  induction parts generalizing ds with
  | nil => rfl
  | cons p ps ih => rw [builtColumns, List.length_cons, List.length_cons, ih]

/-- The two ways agree on the series, and on the spread. -/
theorem SameRegressors.parts_and_spread (h : SameRegressors scope stored)
    (hLive : ¬Live scope stored) (hKeys : (stored.map OhlcvRow.key).Nodup)
    (hSome : macroParts (storedSeries stored) ≠ []) (sentiment : List (Nat × Option ℚ)) {t : Nat}
    (ht : t ∈ marketDays scope stored ∪ (sentiment.map Prod.fst).toFinset ∪
      macroDays (storedSeries stored)) :
    let base := marketDays scope stored ∪ (sentiment.map Prod.fst).toFinset
    let all := base ∪ macroDays (storedSeries stored)
    valuesOn t (builtColumns base (macroParts (storedSeries stored))) =
        valuesOn t ((macroParts (storedSeries stored)).map fun p =>
          (p.1, onRows .nan all p.2.inForce)) ∧
      ∀ tnx irx, yields (storedSeries stored) = some (tnx, irx) →
        builtSpread base all tnx irx t = onRows .nan all (spreadOn tnx irx) t := by
  have hColumns := h.macroColumns hLive hKeys hSome sentiment ht
  dsimp only at hColumns ⊢
  rw [cachedColumns, valuesOn, valuesOn, List.map_append, List.map_append] at hColumns
  obtain ⟨hParts, hSpread⟩ := List.append_inj hColumns (by simp [length_builtColumns])
  refine ⟨hParts.symm, fun tnx irx hYields => ?_⟩
  rw [hYields] at hSpread
  exact (congrArg Prod.snd (List.cons.inj hSpread).1).symm

/-- Runs with and without the macro cache show every disagreement of the macro series. -/
theorem SameRegressors.macroAgree (h : SameRegressors scope stored) (hLive : ¬Live scope stored)
    (hKeys : (stored.map OhlcvRow.key).Nodup) :
    MacroAgree (marketDays scope stored) (storedSeries stored) := by
  by_cases hSome : macroParts (storedSeries stored) = []
  · refine ⟨by rw [hSome]; trivial, fun tnx irx hYields => ?_⟩
    obtain ⟨rest, hRest⟩ := macroParts_of_some (yields_eq_some_iff.mp hYields).1
    rw [hSome] at hRest
    cases hRest
  · refine ⟨covered_of_valuesOn fun t ht => ?_, fun tnx irx hYields t d hPlace => ?_⟩
    · have hNoSentiment : marketDays scope stored ∪
          (([] : List (Nat × Option ℚ)).map Prod.fst).toFinset = marketDays scope stored := by
        rw [List.map_nil, List.toFinset_nil, Finset.union_empty]
      have hParts := (h.parts_and_spread hLive hKeys hSome [] (t := t) (by rwa [hNoSentiment])).1
      rwa [hNoSentiment] at hParts
    · -- A sentiment score puts the day into the frame.
      have hDay : t ∈ marketDays scope stored ∪
          (([(t, some 0)] : List (Nat × Option ℚ)).map Prod.fst).toFinset := by
        simp
      obtain ⟨hParts, hSpread⟩ := h.parts_and_spread hLive hKeys hSome [(t, some 0)]
        (Finset.mem_union_left _ hDay)
      obtain ⟨hTnx, hIrx⟩ := yields_eq_some_iff.mp hYields
      obtain ⟨rest, hRest⟩ := macroParts_of_some hTnx
      rw [hRest] at hParts
      have hTreasury := congrArg Prod.snd (List.cons.inj hParts).1
      have hValue := hSpread tnx irx hYields
      rw [onRows_of_mem (Finset.mem_union_left _ hDay), spreadOn, hPlace, Option.elim_some,
        builtSpread] at hValue
      change onRows .nan _ tnx.inForce t = onRows .nan _ tnx.inForce t at hTreasury
      rw [hTreasury, onRows_of_mem (Finset.mem_union_left _ hDay),
        onRows_of_mem (Finset.mem_union_left _ hDay), Series.inForce, valueAt, hPlace,
        Option.elim_some] at hValue
      have hClose := (mem_known.mp (place_cases hPlace).1).2
      obtain ⟨x, hx⟩ := (proper_storedSeries hTnx).finite d hClose
      rw [hx] at hValue
      by_cases hBill : irx.closeDays.Nonempty
      · obtain ⟨y, hy⟩ := (proper_storedSeries hIrx).inForce_number hBill t
        obtain ⟨z, hz⟩ := (proper_storedSeries hIrx).inForce_number hBill d
        rw [hy, hz] at hValue ⊢
        simp only [PyFloat.sub, PyFloat.neg, PyFloat.add, PyFloat.number.injEq, add_right_inj,
          neg_inj] at hValue
        rw [hValue]
      · rw [Finset.not_nonempty_iff_eq_empty] at hBill
        rw [inForce_of_empty hBill]

/-- The training columns of a ticker are the same in any two runs exactly when the live fetch is used,
or the closes of the index are constant and the macro series agree. -/
theorem steady_iff (scope : Scope) {stored : List (OhlcvRow ℚ)}
    (hKeys : (stored.map OhlcvRow.key).Nodup) :
    SameRegressors scope stored ↔ Live scope stored ∨ Steady scope stored := by
  by_cases hLive : Live scope stored
  · exact iff_of_true (hLive.same hKeys) (Or.inl hLive)
  · constructor
    · exact fun h => Or.inr ⟨h.index hLive hKeys, h.macroAgree hLive hKeys⟩
    · rintro (hNow | hSteady)
      · exact absurd hNow hLive
      · exact hSteady.same hLive hKeys

end Store

/-- A VIX that moves, and an index that does not. -/
def calm : List (OhlcvRow ℚ) :=
  [⟨"^VIX", 1, some 12⟩, ⟨"^GSPC", 1, some 100⟩, ⟨"^VIX", 2, some 15⟩, ⟨"^GSPC", 2, some 100⟩]

theorem calm_same : (calm.map OhlcvRow.key).Nodup ∧ SameRegressors .us calm := by
  refine ⟨by decide, (steady_iff .us (by decide)).mpr (Or.inr ⟨?_, ?_, ?_⟩)⟩
  · intro r hr r' hr' x y hx hy
    have hRows : bulkRows calm Scope.us.idxSym =
        [⟨"^GSPC", 1, some 100⟩, ⟨"^GSPC", 2, some 100⟩] := by decide +kernel
    rw [hRows] at hr hr'
    have hClose : ∀ r ∈ ([⟨"^GSPC", 1, some 100⟩, ⟨"^GSPC", 2, some 100⟩] : List (OhlcvRow ℚ)),
        r.close = some 100 := by simp
    rw [hClose r hr] at hx
    rw [hClose r' hr'] at hy
    exact Option.some.inj (hx.symm.trans hy)
  · have hNone : macroParts (storedSeries calm) = [] := by rfl
    rw [hNone]
    trivial
  · intro tnx irx hYields
    have hNone : yields (storedSeries calm) = none := by rfl
    rw [hNone] at hYields
    cases hYields

/-- Two days of an index. -/
def moving : List (OhlcvRow ℚ) :=
  [⟨"^VIX", 1, some 12⟩, ⟨"^GSPC", 1, some 100⟩, ⟨"^GSPC", 2, some 110⟩]

theorem moving_differs : ¬SameRegressors .us moving := by
  intro hSame
  have hLive : ¬Live .us moving := by
    rw [Live]
    decide +kernel
  have hConstant := hSame.index hLive (by decide)
  have hEqual : (100 : ℚ) = 110 :=
    hConstant ⟨"^GSPC", 1, some 100⟩ (by decide +kernel) ⟨"^GSPC", 2, some 110⟩ (by decide +kernel)
      100 110 rfl rfl
  norm_num at hEqual

end AsetPlatform.Forecast.Regressors
