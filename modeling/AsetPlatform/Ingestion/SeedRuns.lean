import AsetPlatform.Ingestion.SeedUniverse

/-!
# What a seeding run reconciles

An update that ends without errors reconciles the universe with its file (`Reconciled`) exactly when
the file and the database fit together (`Mergeable`): the rows of one symbol agree, the active rows
before the run are few enough for its rows to remove, and the batches of the cursor come to new stocks
(`reconciled_iff`). What the run does to a symbol is a fold of the symbol's rows over its view.
-/

set_option autoImplicit false

namespace AsetPlatform.Ingestion.SeedUniverse

open AsetPlatform.Library AsetPlatform.Ingestion.Universe

def rowsOf (T : CharTables) (rows : List CsvRow) (symbol : String) : List CsvRow :=
  rows.filter fun r => (r.data T).symbol = symbol

/-- A run after everything that the database knows, and that no exception hits. -/
structure Later (db : Db) (started : Nat) (runs : Nat → RowRun) : Prop where
  calm : ∀ k, (runs k).upsertRaises = none ∧ (runs k).syncRaises = none
  updated : ∀ k, ∀ s ∈ db.stocks, s.updatedAt < (runs k).wall
  added : ∀ r ∈ db.tags, r.addedAt < started

/-- The universe is reconciled with the file by a run that took it from `before` to `after`. -/
structure Reconciled (T : CharTables) (csvPath : String) (csv : List CsvRow) (before after : Db) :
    Prop where
  tags : ∀ symbol row, (rowsOf T csv symbol).getLast? = some row →
    ∀ stock ∈ after.stocks, stock.symbol = symbol →
      ∀ tag, tag ∈ (getActiveTags after.tags stock.id).map StockTag.tag ↔ tag ∈ row.tagSet T
  single : ∀ stockId tag, activeCount after.tags stockId tag ≤ 1
  again : ∀ started runs, Later after started runs →
    ∃ summary, seedFromCsv T csvPath true started runs after (some csv) = some (after, summary) ∧
      summary.errors = []
  returned : ∀ stock ∈ after.stocks, (∀ s ∈ before.stocks, s.id ≠ stock.id) →
    ∃ cursor ∈ after.cursors, cursor.name = deriveCursorName csvPath ∧
      ∃ n, stock.toStockMaster ∈ getNextBatch
        ((Cursor.afterBatch (after.stocks.map MasterRow.toStockMaster))^[n] cursor)
        (after.stocks.map MasterRow.toStockMaster)

/-- What two rows of one symbol both give is the same. -/
structure Agree (a b : StockData) : Prop where
  name : a.name = b.name
  isin : ∀ x y, a.isin = some x → b.isin = some y → x = y
  exchange : a.exchange = b.exchange
  sector : ∀ x y, a.sector = some x → b.sector = some y → x = y
  industry : ∀ x y, a.industry = some x → b.industry = some y → x = y

/-- What the first data of a new stock give is stored as it is, or given again by later data. -/
def Stays (T : CharTables) (column : StockData → Option String) (first : StockData)
    (rest : List StockData) : Prop :=
  ∀ x, column first = some x → safeStr T (some x) = some x ∨ ∃ d ∈ rest, column d = some x

/-- The file and the database fit together. -/
structure Mergeable (T : CharTables) (csvPath : String) (csv : List CsvRow) (db : Db) : Prop where
  agree : ∀ symbol, ∀ a ∈ rowsOf T csv symbol, ∀ b ∈ rowsOf T csv symbol,
    Agree (a.data T) (b.data T)
  clean : ∀ symbol first rest, (rowsOf T csv symbol).map (CsvRow.data T) = first :: rest →
    getStockBySymbol db symbol = none →
      Stays T StockData.sector first rest ∧ Stays T StockData.industry first rest
  tags : ∀ symbol row, (rowsOf T csv symbol).getLast? = some row →
    ∀ r ∈ rowsOf T csv symbol, r.tagSet T ≠ [] → ∀ tag, tag ∈ r.tagSet T ↔ tag ∈ row.tagSet T
  held : ∀ symbol row, (rowsOf T csv symbol).getLast? = some row →
    ∀ stock ∈ db.stocks, stock.symbol = symbol → ∀ tag, activeCount db.tags stock.id tag ≤
      if tag ∈ row.tagSet T then 1 else (rowsOf T csv symbol).countP fun r => r.tagSet T ≠ []
  unlisted : ∀ stock ∈ db.stocks, rowsOf T csv stock.symbol = [] →
    ∀ tag, activeCount db.tags stock.id tag ≤ 1
  cursor : (∃ r ∈ csv, getStockBySymbol db (r.data T).symbol = none) →
    ∀ c ∈ db.cursors, c.name = deriveCursorName csvPath →
      0 < c.batchSize ∧ c.lastProcessedId < db.nextId

/-! ## The columns of a stock -/

section Listings

variable {T : CharTables} {given rest : List StockData} {first : StockData} {old : Listing}

def columnsAfter (given : List StockData) (old : Listing) : Listing :=
  given.foldl (fun l d => d.onto l) old

theorem columnsAfter_eq (given : List StockData) (old : Listing) :
    some (columnsAfter given old).name =
        lastGiven (fun d => some d.name) given (some old.name) ∧
      (columnsAfter given old).isin = lastGiven StockData.isin given old.isin ∧
      some (columnsAfter given old).exchange =
        lastGiven (fun d => some d.exchange) given (some old.exchange) ∧
      (columnsAfter given old).sector = lastGiven StockData.sector given old.sector ∧
      (columnsAfter given old).industry = lastGiven StockData.industry given old.industry := by
  induction given generalizing old with
  | nil => exact ⟨rfl, rfl, rfl, rfl, rfl⟩
  | cons d given ih => exact ih (d.onto old)

/-- Data change nothing when what they give is there. -/
theorem onto_eq_iff {data : StockData} {l : Listing} : data.onto l = l ↔
    (∀ x, some data.name = some x → some l.name = some x) ∧
      (∀ x, data.isin = some x → l.isin = some x) ∧
      (∀ x, some data.exchange = some x → some l.exchange = some x) ∧
      (∀ x, data.sector = some x → l.sector = some x) ∧
      ∀ x, data.industry = some x → l.industry = some x := by
  have hOr : ∀ given value : Option String,
      given.or value = value ↔ ∀ x, given = some x → value = some x := by
    intro given value
    cases given with
    | none => simp
    | some x => simp [eq_comm]
  obtain ⟨name, isin, exchange, sector, industry⟩ := l
  rw [← hOr, ← hOr, ← hOr, ← hOr, ← hOr]
  simp only [StockData.onto, Listing.mk.injEq, Option.some_or, Option.some.injEq]

def Gives (given : List StockData) (column : StockData → Option String) (value : Option String) :
    Prop :=
  ∀ d ∈ given, ∀ x, column d = some x → value = some x

/-- The data that give the column agree. -/
def Agrees (given : List StockData) (column : StockData → Option String) : Prop :=
  ∀ a ∈ given, ∀ b ∈ given, ∀ x y, column a = some x → column b = some y → x = y

theorem onto_eq_iff_gives {l : Listing} : (∀ d ∈ given, d.onto l = l) ↔
    Gives given (fun d => some d.name) (some l.name) ∧ Gives given StockData.isin l.isin ∧
      Gives given (fun d => some d.exchange) (some l.exchange) ∧
      Gives given StockData.sector l.sector ∧ Gives given StockData.industry l.industry := by
  simp only [onto_eq_iff]
  constructor
  · intro h
    exact ⟨fun d hd => (h d hd).1, fun d hd => (h d hd).2.1, fun d hd => (h d hd).2.2.1,
      fun d hd => (h d hd).2.2.2.1, fun d hd => (h d hd).2.2.2.2⟩
  · rintro ⟨hName, hIsin, hExchange, hSector, hIndustry⟩ d hd
    exact ⟨hName d hd, hIsin d hd, hExchange d hd, hSector d hd, hIndustry d hd⟩

theorem agree_iff_agrees : (∀ a ∈ given, ∀ b ∈ given, Agree a b) ↔
    Agrees given (fun d => some d.name) ∧ Agrees given StockData.isin ∧
      Agrees given (fun d => some d.exchange) ∧ Agrees given StockData.sector ∧
      Agrees given StockData.industry := by
  constructor
  · intro h
    refine ⟨?_, fun a ha b hb => (h a ha b hb).isin, ?_, fun a ha b hb => (h a ha b hb).sector,
      fun a ha b hb => (h a ha b hb).industry⟩
    · intro a ha b hb x y hx hy
      exact (Option.some.inj hx).symm.trans ((h a ha b hb).name.trans (Option.some.inj hy))
    · intro a ha b hb x y hx hy
      exact (Option.some.inj hx).symm.trans ((h a ha b hb).exchange.trans (Option.some.inj hy))
  · rintro ⟨hName, hIsin, hExchange, hSector, hIndustry⟩ a ha b hb
    exact ⟨hName a ha b hb _ _ rfl rfl, hIsin a ha b hb, hExchange a ha b hb _ _ rfl rfl,
      hSector a ha b hb, hIndustry a ha b hb⟩

theorem columnsAfter_settled_iff :
    (∀ d ∈ given, d.onto (columnsAfter given old) = columnsAfter given old) ↔
      ∀ a ∈ given, ∀ b ∈ given, Agree a b := by
  obtain ⟨hName, hIsin, hExchange, hSector, hIndustry⟩ := columnsAfter_eq given old
  have hColumn : ∀ (column : StockData → Option String) (value : Option String),
      Gives given column (lastGiven column given value) ↔ Agrees given column :=
    fun column value => lastGiven_settled_iff
  rw [onto_eq_iff_gives, agree_iff_agrees, hName, hIsin, hExchange, hSector, hIndustry, hColumn,
    hColumn, hColumn, hColumn, hColumn]

/-- The first data of a new stock are cleaned before they are stored. -/
theorem columnsAfter_settled_new_iff :
    (∀ d ∈ first :: rest, d.onto (columnsAfter rest (first.created T)) =
      columnsAfter rest (first.created T)) ↔
    (∀ a ∈ first :: rest, ∀ b ∈ first :: rest, Agree a b) ∧
      Stays T StockData.sector first rest ∧ Stays T StockData.industry first rest := by
  obtain ⟨hName, hIsin, hExchange, hSector, hIndustry⟩ := columnsAfter_eq rest (first.created T)
  have hPlain : ∀ column : StockData → Option String,
      Gives (first :: rest) column (lastGiven column rest (column first)) ↔
        Agrees (first :: rest) column := by
    intro column
    have hId : (id : Option String → Option String) none = none := rfl
    exact (lastGiven_settled_new_iff hId).trans (and_iff_left fun x _ => Or.inl rfl)
  have hCleaned : ∀ column : StockData → Option String,
      Gives (first :: rest) column (lastGiven column rest (safeStr T (column first))) ↔
        Agrees (first :: rest) column ∧ Stays T column first rest :=
    fun column => lastGiven_settled_new_iff rfl
  have hNameIff := hPlain fun d => some d.name
  have hIsinIff := hPlain StockData.isin
  have hExchangeIff := hPlain fun d => some d.exchange
  have hSectorIff := hCleaned StockData.sector
  have hIndustryIff := hCleaned StockData.industry
  rw [onto_eq_iff_gives, agree_iff_agrees, hName, hIsin, hExchange, hSector, hIndustry]
  constructor
  · rintro ⟨hN, hI, hE, hS, hD⟩
    have hS' := hSectorIff.mp hS
    have hD' := hIndustryIff.mp hD
    exact ⟨⟨hNameIff.mp hN, hIsinIff.mp hI, hExchangeIff.mp hE, hS'.1, hD'.1⟩, hS'.2, hD'.2⟩
  · rintro ⟨⟨hN, hI, hE, hS, hD⟩, hSectorStays, hIndustryStays⟩
    exact ⟨hNameIff.mpr hN, hIsinIff.mpr hI, hExchangeIff.mpr hE, hSectorIff.mpr ⟨hS, hSectorStays⟩,
      hIndustryIff.mpr ⟨hD, hIndustryStays⟩⟩

end Listings

/-! ## The tags of a stock -/

section Counts

variable {sets : List (List String)} {last : List String} {count : String → Nat}

/-- The counts after the sets of the rows; a row without tags is passed over. -/
def countsAfter (sets : List (List String)) (count : String → Nat) : String → Nat :=
  sets.foldl (fun c s => if s = [] then c else synced s c) count

/-- How many rows have tags. -/
def tagged (sets : List (List String)) : Nat := sets.countP fun s => s ≠ []

def SameTags (sets : List (List String)) (last : List String) : Prop :=
  ∀ s ∈ sets, s ≠ [] → ∀ tag, tag ∈ s ↔ tag ∈ last

theorem countsAfter_of_same (h : SameTags sets last) (tag : String) : countsAfter sets count tag =
    if tagged sets = 0 then count tag
    else if tag ∈ last then max (count tag) 1 else count tag - tagged sets := by
  unfold countsAfter
  induction sets generalizing count with
  | nil => rfl
  | cons s sets ih =>
      have hRest : SameTags sets last := fun x hx => h x (List.mem_cons_of_mem _ hx)
      rw [List.foldl_cons]
      by_cases hNil : s = []
      · have hTagged : tagged (s :: sets) = tagged sets := by
          rw [tagged, List.countP_cons_of_neg (by simpa using hNil), tagged]
        rw [if_pos hNil, ih hRest, hTagged]
      · have hTagged : tagged (s :: sets) = tagged sets + 1 := by
          rw [tagged, List.countP_cons_of_pos (by simpa using hNil), tagged]
        rw [if_neg hNil, ih hRest, hTagged, if_neg (Nat.succ_ne_zero _), synced]
        simp only [h s List.mem_cons_self hNil tag]
        by_cases hMem : tag ∈ last
        · simp only [if_pos hMem]
          split <;> omega
        · simp only [if_neg hMem]
          split <;> omega

/-- Every row finds its tags active in the end, the last row even without tags, and no tag twice, if
and only if the rows have the same tags and few enough rows were active before. -/
theorem countsAfter_settled_iff (hLast : last ∈ sets) :
    ((∀ tag, 0 < countsAfter sets count tag ↔ tag ∈ last) ∧
        (∀ tag, countsAfter sets count tag ≤ 1) ∧
        ∀ s ∈ sets, s = [] ∨ ∀ tag, tag ∈ s ↔ 0 < countsAfter sets count tag) ↔
      SameTags sets last ∧ ∀ tag, count tag ≤ if tag ∈ last then 1 else tagged sets := by
  have hTagged : last ≠ [] → tagged sets ≠ 0 := fun hNe =>
    Nat.ne_of_gt (List.countP_pos_iff.mpr ⟨last, hLast, by simpa using hNe⟩)
  constructor
  · rintro ⟨hExact, hSingle, hEach⟩
    have hSame : SameTags sets last := by
      intro s hs hNe tag
      exact ((hEach s hs).resolve_left hNe tag).trans (hExact tag)
    refine ⟨hSame, fun tag => ?_⟩
    have hCount : countsAfter sets count tag = _ := countsAfter_of_same hSame tag
    by_cases hMem : tag ∈ last
    · have hOne := hSingle tag
      rw [hCount, if_neg (hTagged (List.ne_nil_of_mem hMem)), if_pos hMem] at hOne
      rw [if_pos hMem]
      omega
    · have hZero : countsAfter sets count tag = 0 :=
        Nat.eq_zero_of_not_pos fun hPos => hMem ((hExact tag).mp hPos)
      rw [hCount, if_neg hMem] at hZero
      rw [if_neg hMem]
      split at hZero <;> omega
  · rintro ⟨hSame, hHeld⟩
    have hCount : ∀ tag, countsAfter sets count tag = if tag ∈ last then 1 else 0 := by
      intro tag
      have hTag := hHeld tag
      rw [countsAfter_of_same hSame]
      by_cases hMem : tag ∈ last
      · rw [if_pos hMem] at hTag
        rw [if_neg (hTagged (List.ne_nil_of_mem hMem)), if_pos hMem, if_pos hMem]
        omega
      · rw [if_neg hMem] at hTag
        rw [if_neg hMem, if_neg hMem]
        split <;> omega
    have hExact : ∀ tag, 0 < countsAfter sets count tag ↔ tag ∈ last := by
      intro tag
      rw [hCount]
      split <;> simp_all
    refine ⟨hExact, fun tag => ?_, fun s hs => ?_⟩
    · rw [hCount]
      split <;> omega
    · by_cases hNil : s = []
      · exact Or.inl hNil
      · exact Or.inr fun tag => (hSame s hs hNil tag).trans (hExact tag).symm

end Counts

/-! ## A row that finds its own work done -/

/-- The stock has the columns that the data give, and the tags if there are any. -/
def Settled (v : View) (data : StockData) (tags : List String) : Prop :=
  (∃ x, v.listing = some x ∧ data.onto x.1 = x.1) ∧
    (tags = [] ∨ ∀ tag, tag ∈ tags ↔ 0 < v.count tag)

/-- A view that no later row brings back: a column has been written, a row of a tag added, or one
removed. -/
def Moved (v w : View) : Prop :=
  (∃ x y, v.listing = some x ∧ w.listing = some y ∧ x.2 < y.2) ∨ v.owned < w.owned ∨
    v.owned ≤ w.owned ∧ ∃ tag, w.count tag < v.count tag

section Settling

variable {T : CharTables} {started : Nat} {v w : View} {e : Entry} {es : List Entry}
variable {x : Listing × Nat} {line : CsvRow × RowRun} {st : SeedState} {ls : List (CsvRow × RowRun)}

theorem not_moved_self (v : View) : ¬ Moved v v := by
  rintro (⟨x, y, hx, hy, hLt⟩ | hLt | ⟨-, tag, hLt⟩)
  · rw [Option.some.inj (hx.symm.trans hy)] at hLt
    exact Nat.lt_irrefl _ hLt
  · exact Nat.lt_irrefl _ hLt
  · exact Nat.lt_irrefl _ hLt

theorem settled_of_seeded_eq (hListing : v.listing = some x) (hLater : x.2 < e.wall)
    (h : v.seeded T started e = v) : Settled v e.data e.tags := by
  constructor
  · refine ⟨x, hListing, ?_⟩
    by_contra hChanged
    have hWritten := congrArg View.listing h
    rw [hListing, View.seeded, hListing] at hWritten
    have hTime := congrArg Prod.snd (Option.some.inj hWritten)
    rw [written, if_neg hChanged] at hTime
    exact absurd hTime.symm (Nat.ne_of_lt hLater)
  · by_cases hNil : e.tags = []
    · exact Or.inl hNil
    · right
      have hOwned := congrArg View.owned h
      have hCount := congrArg View.count h
      rw [View.seeded_of_tags hNil] at hOwned
      rw [View.seeded_of_tags hNil] at hCount
      intro tag
      constructor
      · intro hMem
        have hNone := List.countP_eq_zero.mp (Nat.add_eq_left.mp hOwned) tag hMem
        rw [decide_eq_true_eq] at hNone
        exact Nat.pos_of_ne_zero hNone
      · intro hPos
        by_contra hMem
        have hTag : synced e.tags v.count tag = v.count tag := congrFun hCount tag
        rw [synced, if_neg hMem] at hTag
        omega

theorem seeded_eq_or_moved (hListing : v.listing = some x) (hLater : x.2 < e.wall) :
    v.seeded T started e = v ∨ Moved v (v.seeded T started e) := by
  by_cases hSame : e.data.onto x.1 = x.1
  · have hWritten : some (written T started e v.listing) = v.listing := by
      rw [hListing, written, if_pos hSame, hSame]
    by_cases hNil : e.tags = []
    · left
      rw [View.seeded_of_nil hNil, hWritten]
    · by_cases hAdded : ∃ tag ∈ e.tags, v.count tag = 0
      · obtain ⟨tag, hMem, hZero⟩ := hAdded
        refine Or.inr (Or.inr (Or.inl ?_))
        rw [View.seeded_of_tags hNil]
        have hPos : 0 < e.tags.countP fun tag => v.count tag = 0 :=
          List.countP_pos_iff.mpr ⟨tag, hMem, decide_eq_true hZero⟩
        exact Nat.lt_add_of_pos_right hPos
      · have hOwned : e.tags.countP (fun tag => v.count tag = 0) = 0 :=
          List.countP_eq_zero.mpr fun tag hMem hZero =>
            hAdded ⟨tag, hMem, of_decide_eq_true hZero⟩
        by_cases hRemoved : ∃ tag, synced e.tags v.count tag < v.count tag
        · refine Or.inr (Or.inr (Or.inr ?_))
          rw [View.seeded_of_tags hNil, hOwned]
          exact ⟨Nat.le_refl _, hRemoved⟩
        · left
          have hCount : synced e.tags v.count = v.count := by
            funext tag
            have hKept := not_exists.mp hRemoved tag
            by_cases hMem : tag ∈ e.tags
            · have hHeld : v.count tag ≠ 0 := fun hZero => hAdded ⟨tag, hMem, hZero⟩
              rw [synced, if_pos hMem]
              omega
            · rw [synced, if_neg hMem] at hKept ⊢
              omega
          rw [View.seeded_of_tags hNil, hWritten, hCount, hOwned]
          rfl
  · refine Or.inr (Or.inl ⟨x, _, hListing, rfl, ?_⟩)
    rw [hListing, written, if_neg hSame]
    exact hLater

theorem moved_seeded (hListing : v.listing = some x) (hLater : x.2 < e.wall)
    (h : Moved v w) : Moved v (w.seeded T started e) := by
  have hOwned : w.owned ≤ (w.seeded T started e).owned := by
    rw [View.seeded]
    split
    · exact Nat.le_refl _
    · exact Nat.le_add_right _ _
  rcases h with ⟨x', y, hx, hy, hLt⟩ | hLt | ⟨hLe, tag, hLt⟩
  · refine Or.inl ⟨x', _, hx, rfl, ?_⟩
    obtain rfl := Option.some.inj (hListing.symm.trans hx)
    rw [hy, written]
    dsimp only
    split
    · exact hLt
    · exact hLater
  · exact Or.inr (Or.inl (Nat.lt_of_lt_of_le hLt hOwned))
  · right
    by_cases hNil : e.tags = []
    · right
      rw [View.seeded_of_nil hNil]
      exact ⟨hLe, tag, hLt⟩
    · rw [View.seeded_of_tags hNil]
      by_cases hAdded : tag ∈ e.tags ∧ w.count tag = 0
      · -- the row that comes back counts among those of the stock
        left
        have hPos : 0 < e.tags.countP fun tag => w.count tag = 0 :=
          List.countP_pos_iff.mpr ⟨tag, hAdded.1, decide_eq_true hAdded.2⟩
        dsimp only
        omega
      · refine Or.inr ⟨Nat.le_trans hLe (Nat.le_add_right _ _), tag, ?_⟩
        show synced e.tags w.count tag < v.count tag
        rw [synced]
        split
        · rename_i hMem
          have hHeld : w.count tag ≠ 0 := fun hZero => hAdded ⟨hMem, hZero⟩
          omega
        · omega

theorem settled_of_foldl_eq (hListing : v.listing = some x) (hLater : ∀ e ∈ es, x.2 < e.wall)
    (h : es.foldl (View.seeded T started) v = v) : ∀ e ∈ es, Settled v e.data e.tags := by
  have hFixed : ∀ e ∈ es, v.seeded T started e = v := eq_of_not_moved
    (fun e he => seeded_eq_or_moved hListing (hLater e he))
    (fun w e he => moved_seeded hListing (hLater e he))
    (by rw [h]; exact not_moved_self v)
  exact fun e he => settled_of_seeded_eq hListing (hLater e he) (hFixed e he)

theorem processRow_settled (hSettled : Settled (viewOf st.db (line.1.data T).symbol) (line.1.data T) (line.1.tagSet T))
    (hCalm : line.2.upsertRaises = none ∧ line.2.syncRaises = none) :
    ∃ summary, processRow T true started st line = some { st with summary := summary } ∧
      summary.errors = st.summary.errors := by
  obtain ⟨⟨x, hListing, hSame⟩, hTags⟩ := hSettled
  cases hFind : getStockBySymbol st.db (line.1.data T).symbol with
  | none =>
      rw [viewOf_none hFind] at hListing
      cases hListing
  | some s =>
      rw [viewOf_some hFind] at hListing hTags
      obtain rfl := Option.some.inj hListing
      have hUpsert : upsertStock T started line.2.wall st.db (line.1.data T) =
          some (st.db, s, false) := by
        unfold upsertStock
        rw [hFind]
        exact if_pos hSame
      by_cases hNil : line.1.tagSet T = []
      · refine ⟨{ st.summary with updated := st.summary.updated + 1 }, ?_, rfl⟩
        unfold processRow
        rw [hCalm.1]
        dsimp only
        rw [hUpsert]
        dsimp only
        rw [if_pos rfl, syncRow, if_pos hNil]
      · have hSync : syncTags st.db.tags s.id (line.1.tagSet T) started line.2.wall =
            some (st.db.tags, [], []) :=
          syncTags_of_same fun tag => (hTags.resolve_left hNil tag).trans mem_activeTags.symm
        refine ⟨{ st.summary with updated := st.summary.updated + 1 }, ?_, rfl⟩
        unfold processRow
        rw [hCalm.1]
        dsimp only
        rw [hUpsert]
        dsimp only
        rw [if_pos rfl, syncRow, if_neg hNil, hCalm.2]
        dsimp only
        rw [hSync]
        rfl

theorem processRows_settled
    (hSettled : ∀ line ∈ ls, Settled (viewOf st.db (line.1.data T).symbol) (line.1.data T) (line.1.tagSet T))
    (hCalm : ∀ line ∈ ls, line.2.upsertRaises = none ∧ line.2.syncRaises = none) :
    ∃ summary, processRows T true started st ls = some { st with summary := summary } ∧
      summary.errors = st.summary.errors := by
  unfold processRows
  induction ls generalizing st with
  | nil => exact ⟨st.summary, rfl, rfl⟩
  | cons line ls ih =>
      obtain ⟨hFirst, hRest⟩ := List.forall_mem_cons.mp hSettled
      obtain ⟨hCalmFirst, hCalmRest⟩ := List.forall_mem_cons.mp hCalm
      obtain ⟨summary, hRow, hErrors⟩ : ∃ summary,
          processRow T true started st line = some { st with summary := summary } ∧
            summary.errors = st.summary.errors := processRow_settled hFirst hCalmFirst
      obtain ⟨summary', hRows, hErrors'⟩ :=
        @ih { st with summary := summary } hRest hCalmRest
      refine ⟨summary', ?_, hErrors'.trans hErrors⟩
      rw [List.foldlM_cons, hRow]
      exact hRows

end Settling

/-! ## The stocks that a run inserts -/

/-- A run keeps the stocks and their symbols, and inserts active stocks from the next id on. -/
structure Grown (before after : Db) : Prop where
  next : before.nextId ≤ after.nextId
  kept : ∀ s ∈ before.stocks, ∃ s' ∈ after.stocks, s'.id = s.id ∧ s'.symbol = s.symbol
  born : ∀ s ∈ after.stocks, (∃ old ∈ before.stocks, old.id = s.id) ∨
    before.nextId ≤ s.id ∧ s.isActive = true
  first : before.nextId < after.nextId → ∃ s ∈ after.stocks, s.id = before.nextId
  cursors : after.cursors = before.cursors

section Growing

variable {T : CharTables} {started : Nat} {db db' before after : Db} {line : CsvRow × RowRun}
variable {ls : List (CsvRow × RowRun)}

theorem Grown.refl (db : Db) : Grown db db where
  next := Nat.le_refl _
  kept := fun s hs => ⟨s, hs, rfl, rfl⟩
  born := fun s hs => Or.inl ⟨s, hs, rfl⟩
  first := fun h => absurd h (Nat.lt_irrefl _)
  cursors := rfl

theorem Grown.upsertStock {wall : Nat} {data : StockData} {stock : MasterRow} {isNew : Bool}
    (hGrown : Grown before db) (hValid : Valid db)
    (h : Universe.upsertStock T started wall db data = some (db', stock, isNew)) :
    Grown before db' := by
  cases hFind : getStockBySymbol db data.symbol with
  | some existing =>
      obtain ⟨-, -, rfl⟩ := upsertStock_existing hValid hFind h
      have hRow : ∀ s : MasterRow,
          (if s.id = existing.id then updatedRow data wall s else s).symbol = s.symbol ∧
            (if s.id = existing.id then updatedRow data wall s else s).id = s.id ∧
            (if s.id = existing.id then updatedRow data wall s else s).isActive = s.isActive := by
        intro s
        split <;> exact ⟨rfl, rfl, rfl⟩
      refine ⟨hGrown.next, ?_, ?_, ?_, hGrown.cursors⟩
      · intro s hs
        obtain ⟨s', hMem, hId, hSymbol⟩ := hGrown.kept s hs
        exact ⟨_, List.mem_map_of_mem hMem, (hRow s').2.1.trans hId, (hRow s').1.trans hSymbol⟩
      · intro s hs
        obtain ⟨old, hOld, rfl⟩ := List.mem_map.mp hs
        rw [(hRow old).2.1, (hRow old).2.2]
        exact hGrown.born old hOld
      · intro hLt
        obtain ⟨s, hMem, hId⟩ := hGrown.first hLt
        exact ⟨_, List.mem_map_of_mem hMem, (hRow s).2.1.trans hId⟩
  | none =>
      obtain ⟨-, rfl, rfl⟩ := upsertStock_new hFind h
      refine ⟨Nat.le_succ_of_le hGrown.next, ?_, ?_, ?_, hGrown.cursors⟩
      · intro s hs
        obtain ⟨s', hMem, hSame⟩ := hGrown.kept s hs
        exact ⟨s', List.mem_append_left _ hMem, hSame⟩
      · intro s hs
        rcases List.mem_append.mp hs with hs | hs
        · exact hGrown.born s hs
        · rw [List.mem_singleton.mp hs]
          exact Or.inr ⟨hGrown.next, rfl⟩
      · intro _
        -- the new stock is the first of the run, or a stock before it was
        rcases Nat.lt_or_eq_of_le hGrown.next with hLt | hEq
        · obtain ⟨s, hMem, hId⟩ := hGrown.first hLt
          exact ⟨s, List.mem_append_left _ hMem, hId⟩
        · exact ⟨_, List.mem_append_right _ (List.mem_singleton_self _), hEq.symm⟩

theorem Grown.reconcileRow (hGrown : Grown before db) (hValid : Valid db)
    (h : reconcileRow T started db line = some db') : Grown before db' := by
  obtain ⟨db₁, stock, isNew, hUpsert, ⟨-, rfl⟩ | ⟨-, tags, added, removed, -, rfl⟩⟩ :=
    reconcileRow_cases h
  · exact hGrown.upsertStock hValid hUpsert
  · obtain ⟨hNext, hKept, hBorn, hFirst, hCursors⟩ := hGrown.upsertStock hValid hUpsert
    exact ⟨hNext, hKept, hBorn, hFirst, hCursors⟩

theorem Grown.reconcileRows (hGrown : Grown before db) (hValid : Valid db)
    (h : ls.foldlM (SeedUniverse.reconcileRow T started) db = some db') : Grown before db' := by
  induction ls generalizing db with
  | nil =>
      obtain rfl := Option.some.inj h
      exact hGrown
  | cons line ls ih =>
      obtain ⟨db₁, hRow, hRest⟩ := Option.bind_eq_some_iff.mp h
      exact ih (hGrown.reconcileRow hValid hRow) (keyedStep_reconcileRow.inv hValid hRow) hRest

theorem Grown.symbol_eq (hGrown : Grown before after) (hAfter : Valid after) {s old : MasterRow}
    (hMem : s ∈ after.stocks) (hOld : old ∈ before.stocks) (hId : old.id = s.id) :
    old.symbol = s.symbol := by
  obtain ⟨s', hMem', hId', hSymbol⟩ := hGrown.kept old hOld
  have hEq := List.inj_on_of_nodup_map hAfter.ids hMem' hMem (hId'.trans hId)
  rw [← hSymbol, hEq]

end Growing

/-! ## The view of a symbol after its entries -/

section Entries

variable {T : CharTables} {started : Nat} {v : View} {es : List Entry} {x : Listing × Nat}
variable {last : List String}

theorem count_foldl_seeded (v : View) (es : List Entry) :
    (es.foldl (View.seeded T started) v).count = countsAfter (es.map Entry.tags) v.count := by
  unfold countsAfter
  induction es generalizing v with
  | nil => rfl
  | cons e es ih => exact ih (v.seeded T started e)

theorem listing_foldl_seeded (h : v.listing = some x) :
    ∃ time, (es.foldl (View.seeded T started) v).listing =
      some (columnsAfter (es.map Entry.data) x.1, time) := by
  unfold columnsAfter
  induction es generalizing v x with
  | nil => exact ⟨x.2, h⟩
  | cons e es ih =>
      have hFirst : (v.seeded T started e).listing = some (written T started e (some x)) := by
        rw [View.seeded, h]
      exact ih hFirst

/-- The entries of a symbol find their columns in the end. -/
theorem columns_settled_iff (hNe : es ≠ []) :
    (∀ d ∈ es.map Entry.data, ∃ y, (es.foldl (View.seeded T started) v).listing = some y ∧
        d.onto y.1 = y.1) ↔
      (∀ a ∈ es.map Entry.data, ∀ b ∈ es.map Entry.data, Agree a b) ∧
        (v.listing = none → ∀ first rest, es.map Entry.data = first :: rest →
          Stays T StockData.sector first rest ∧ Stays T StockData.industry first rest) := by
  cases hListing : v.listing with
  | some x =>
      obtain ⟨time, hFinal⟩ : ∃ time, (es.foldl (View.seeded T started) v).listing =
        some (columnsAfter (es.map Entry.data) x.1, time) := listing_foldl_seeded hListing
      rw [hFinal, and_iff_left (fun h => by cases h), ← @columnsAfter_settled_iff _ x.1]
      exact forall₂_congr fun d _ =>
        ⟨fun ⟨y, hy, hd⟩ => by obtain rfl := Option.some.inj hy; exact hd, fun hd => ⟨_, rfl, hd⟩⟩
  | none =>
      cases es with
      | nil => exact absurd rfl hNe
      | cons e es =>
          have hFirst : (v.seeded T started e).listing = some (e.data.created T, started) := by
            rw [View.seeded, hListing, written]
          obtain ⟨time, hFinal⟩ : ∃ time,
            (es.foldl (View.seeded T started) (v.seeded T started e)).listing =
              some (columnsAfter (es.map Entry.data) (e.data.created T), time) :=
            listing_foldl_seeded hFirst
          have hNew := @columnsAfter_settled_new_iff T (es.map Entry.data) e.data
          rw [List.foldl_cons, List.map_cons, hFinal]
          constructor
          · intro h
            have hAll := hNew.mp fun d hd => by
              obtain ⟨y, hy, hOnto⟩ := h d hd
              obtain rfl := Option.some.inj hy
              exact hOnto
            refine ⟨hAll.1, fun _ first rest hCons => ?_⟩
            obtain ⟨rfl, rfl⟩ := List.cons.inj hCons
            exact hAll.2
          · rintro ⟨hAgree, hStays⟩ d hd
            exact ⟨_, rfl, hNew.mpr ⟨hAgree, hStays rfl _ _ rfl⟩ d hd⟩

/-- The entries of a symbol find their tags in the end. -/
theorem tags_settled_iff (hLast : last ∈ es.map Entry.tags) :
    ((∀ tag, 0 < (es.foldl (View.seeded T started) v).count tag ↔ tag ∈ last) ∧
        (∀ tag, (es.foldl (View.seeded T started) v).count tag ≤ 1) ∧
        ∀ s ∈ es.map Entry.tags,
          s = [] ∨ ∀ tag, tag ∈ s ↔ 0 < (es.foldl (View.seeded T started) v).count tag) ↔
      SameTags (es.map Entry.tags) last ∧
        ∀ tag, v.count tag ≤ if tag ∈ last then 1 else tagged (es.map Entry.tags) := by
  rw [count_foldl_seeded]
  exact countsAfter_settled_iff hLast

end Entries

/-! ## The run as a whole -/

section Run

variable {T : CharTables} {csvPath : String} {csv : List CsvRow} {started : Nat}
variable {runs : Nat → RowRun} {db db₁ after : Db} {summary : Summary} {symbol : String}

theorem readRows_ok {i : Nat} (h : (readRows T i csv).2 = []) : readRows T i csv = (csv, []) := by
  induction csv generalizing i with
  | nil => rfl
  | cons row rows ih =>
      unfold readRows at h ⊢
      dsimp only at h ⊢
      split at h
      · cases h
      · rename_i hGiven
        rw [if_neg hGiven, ih h]

def entriesOf (T : CharTables) (csv : List CsvRow) (runs : Nat → RowRun) (symbol : String) :
    List Entry :=
  ((lines csv runs).filter fun line => (line.1.data T).symbol = symbol).map (entry T)

theorem map_fst_lines (csv : List CsvRow) (runs : Nat → RowRun) :
    (lines csv runs).map Prod.fst = csv := by
  rw [lines, List.mapIdx_eq_zipIdx_map, List.map_map]
  exact List.zipIdx_map_fst 0 csv

theorem map_entriesOf {α : Type} (f : CsvRow → α) (csv : List CsvRow) (runs : Nat → RowRun) :
    ((lines csv runs).filter fun line => (line.1.data T).symbol = symbol).map (fun line => f line.1) =
      (rowsOf T csv symbol).map f := by
  conv_rhs => rw [rowsOf, ← map_fst_lines csv runs, List.filter_map, List.map_map]
  rfl

theorem data_entriesOf : (entriesOf T csv runs symbol).map Entry.data =
    (rowsOf T csv symbol).map (CsvRow.data T) := by
  rw [← map_entriesOf (CsvRow.data T) csv runs, entriesOf, List.map_map]
  rfl

theorem tags_entriesOf : (entriesOf T csv runs symbol).map Entry.tags =
    (rowsOf T csv symbol).map (CsvRow.tagSet T) := by
  rw [← map_entriesOf (CsvRow.tagSet T) csv runs, entriesOf, List.map_map]
  rfl

theorem ensureCursor_tables (cursorName : String) (total : Nat) (newIds : List Nat) (update : Bool)
    (db : Db) : (ensureCursor cursorName total newIds update db).stocks = db.stocks ∧
      (ensureCursor cursorName total newIds update db).tags = db.tags ∧
      (ensureCursor cursorName total newIds update db).nextId = db.nextId := by
  unfold ensureCursor
  split
  · exact ⟨rfl, rfl, rfl⟩
  · split <;> exact ⟨rfl, rfl, rfl⟩

theorem viewOf_congr {a b : Db} (hStocks : a.stocks = b.stocks) (hTags : a.tags = b.tags) :
    viewOf a = viewOf b := by
  funext symbol
  rw [viewOf, viewOf, getStockBySymbol, getStockBySymbol, hStocks, hTags]

theorem valid_ensureCursor (hValid : Valid db) (cursorName : String) (total : Nat)
    (newIds : List Nat) (update : Bool) :
    Valid (ensureCursor cursorName total newIds update db) := by
  obtain ⟨hSymbols, hIds, hDrawn, hOwners, hPositive, hNames⟩ := hValid
  unfold ensureCursor
  split
  · exact ⟨hSymbols, hIds, hDrawn, hOwners, hPositive, hNames⟩
  · split
    · refine ⟨hSymbols, hIds, hDrawn, hOwners, hPositive, ?_⟩
      have hSame : (db.cursors.map fun c : Cursor =>
          if c.name = cursorName then { c with totalTickers := total, status := .pending } else c).map
            Cursor.name = db.cursors.map Cursor.name := by
        rw [List.map_map]
        refine List.map_congr_left fun c _ => ?_
        simp only [Function.comp_apply]
        split <;> rfl
      show (List.map Cursor.name _).Nodup
      rw [hSame]
      exact hNames
    · rename_i hNew
      refine ⟨hSymbols, hIds, hDrawn, hOwners, hPositive, ?_⟩
      show (List.map Cursor.name _).Nodup
      rw [List.map_append, List.nodup_append]
      refine ⟨hNames, List.nodup_singleton _, ?_⟩
      intro a ha b hb hEq
      obtain ⟨c, hc, rfl⟩ := List.mem_map.mp ha
      exact hNew ⟨c, hc, hEq.trans (List.mem_singleton.mp hb)⟩

/-- A run without errors is the run of the rows, and then that of the cursor. -/
theorem seedFromCsv_ok
    (h : seedFromCsv T csvPath true started runs db (some csv) = some (after, summary))
    (hErrors : summary.errors = []) :
    readRows T 2 csv = (csv, []) ∧ ∃ db₁ newIds,
      (lines csv runs).foldlM (reconcileRow T started) db = some db₁ ∧
      newIds.length + db.nextId = db₁.nextId ∧
      after = ensureCursor (deriveCursorName csvPath) csv.length newIds true db₁ := by
  unfold seedFromCsv at h
  rw [readCsv] at h
  dsimp only at h
  split at h
  · rename_i hNil
    obtain ⟨rfl, rfl⟩ := Prod.mk.inj (Option.some.inj h)
    have hRead := readRows_ok hErrors
    rw [hRead] at hNil
    obtain rfl := hNil
    refine ⟨hRead, db, [], rfl, Nat.zero_add _, ?_⟩
    rw [ensureCursor, if_pos ⟨rfl, rfl⟩]
  · obtain ⟨st, hRows, hEnd⟩ := Option.map_eq_some_iff.mp h
    obtain ⟨rfl, rfl⟩ := Prod.mk.inj hEnd
    obtain ⟨hRead, -, -⟩ := processRows_ok hRows hErrors
    have hRead := readRows_ok hRead
    rw [hRead] at hRows ⊢
    obtain ⟨-, hRun, hDrawn⟩ := processRows_ok hRows hErrors
    refine ⟨rfl, st.db, st.newIds, hRun, ?_, rfl⟩
    rw [hDrawn]
    exact Nat.zero_add _

end Run

/-! ## Reconciled and mergeable -/

section Main

variable {T : CharTables} {csvPath : String} {csv : List CsvRow} {started : Nat}
variable {runs : Nat → RowRun} {db db₁ after : Db} {summary : Summary}

theorem count_le_iff (hValid : Valid db) {symbol : String} {bound : String → Nat} :
    (∀ tag, (viewOf db symbol).count tag ≤ bound tag) ↔
      ∀ stock ∈ db.stocks, stock.symbol = symbol →
        ∀ tag, activeCount db.tags stock.id tag ≤ bound tag := by
  constructor
  · intro h stock hMem hSymbol tag
    have hTag := h tag
    rw [viewOf_some ((getStockBySymbol_eq_some hValid).mpr ⟨hMem, hSymbol⟩)] at hTag
    exact hTag
  · intro h tag
    cases hFind : getStockBySymbol db symbol with
    | none =>
        rw [viewOf_none hFind]
        exact Nat.zero_le _
    | some stock =>
        obtain ⟨hMem, hSymbol⟩ := (getStockBySymbol_eq_some hValid).mp hFind
        rw [viewOf_some hFind]
        exact h stock hMem hSymbol tag

theorem single_iff (hValid : Valid db) : (∀ stockId tag, activeCount db.tags stockId tag ≤ 1) ↔
    ∀ symbol tag, (viewOf db symbol).count tag ≤ 1 := by
  constructor
  · intro h symbol
    exact (count_le_iff hValid).mpr fun stock _ _ => h stock.id
  · intro h stockId tag
    by_cases hOwner : ∃ stock ∈ db.stocks, stock.id = stockId
    · obtain ⟨stock, hMem, rfl⟩ := hOwner
      exact (count_le_iff hValid).mp (h stock.symbol) stock hMem rfl tag
    · have hZero : activeCount db.tags stockId tag = 0 := by
        refine List.countP_eq_zero.mpr fun r hr hActive => hOwner ?_
        rw [Bool.and_eq_true, StockTag.activeFor_iff] at hActive
        obtain ⟨stock, hMem, hId⟩ := hValid.owners r hr
        exact ⟨stock, hMem, hId.trans hActive.1.1⟩
      rw [hZero]
      exact Nat.zero_le _

theorem exists_later {α : Type} (time : α → Nat) (items : List α) :
    ∃ bound, ∀ a ∈ items, time a < bound := by
  induction items with
  | nil => exact ⟨0, fun a ha => absurd ha List.not_mem_nil⟩
  | cons a items ih =>
      obtain ⟨bound, hBound⟩ := ih
      refine ⟨max bound (time a + 1), List.forall_mem_cons.mpr ⟨?_, fun b hb => ?_⟩⟩
      · omega
      · have hLt := hBound b hb
        omega

theorem exists_runs (db : Db) : ∃ started runs, Later db started runs := by
  obtain ⟨started, hStarted⟩ := exists_later StockTag.addedAt db.tags
  obtain ⟨wall, hWall⟩ := exists_later MasterRow.updatedAt db.stocks
  exact ⟨started, fun _ => ⟨none, none, wall⟩, fun _ => ⟨rfl, rfl⟩, fun _ => hWall, hStarted⟩

theorem viewOf_run (hValid : Valid db)
    (hRun : (lines csv runs).foldlM (reconcileRow T started) db = some db₁) (symbol : String) :
    viewOf db₁ symbol =
      (entriesOf T csv runs symbol).foldl (View.seeded T started) (viewOf db symbol) := by
  rw [keyedStep_reconcileRow.view_foldlM hValid hRun, entriesOf, List.foldl_map]

theorem listed_of_mem {r : CsvRow} (h : r ∈ csv) : r ∈ rowsOf T csv (r.data T).symbol :=
  List.mem_filter.mpr ⟨h, decide_eq_true rfl⟩

theorem listing_run (hValid : Valid db)
    (hRun : (lines csv runs).foldlM (reconcileRow T started) db = some db₁) {symbol : String}
    (hListed : rowsOf T csv symbol ≠ []) : ∃ x, (viewOf db₁ symbol).listing = some x := by
  rw [viewOf_run hValid hRun]
  cases hEntries : entriesOf T csv runs symbol with
  | nil =>
      have hNil : (entriesOf T csv runs symbol).map Entry.data =
        (rowsOf T csv symbol).map (CsvRow.data T) := data_entriesOf
      rw [hEntries] at hNil
      exact absurd (List.map_eq_nil_iff.mp hNil.symm) hListed
  | cons e es =>
      have hFirst : ((viewOf db symbol).seeded T started e).listing =
        some (written T started e (viewOf db symbol).listing) := rfl
      obtain ⟨time, hListing⟩ : ∃ time, _ = some (_, time) := listing_foldl_seeded hFirst
      exact ⟨_, hListing⟩

/-- The run can be repeated without a change when each row is settled. -/
theorem again_iff (hValid : Valid after) (hRead : readRows T 2 csv = (csv, []))
    (hListed : ∀ r ∈ csv, ∃ x, (viewOf after (r.data T).symbol).listing = some x) :
    (∀ started runs, Later after started runs →
      ∃ summary, seedFromCsv T csvPath true started runs after (some csv) = some (after, summary) ∧
        summary.errors = []) ↔
    ∀ r ∈ csv, Settled (viewOf after (r.data T).symbol) (r.data T) (r.tagSet T) := by
  constructor
  · intro h r hr
    obtain ⟨started, runs, hLater⟩ := exists_runs after
    obtain ⟨summary, hAgain, hErrors⟩ := h started runs hLater
    obtain ⟨-, db₁, newIds, hRun, -, hAfter⟩ := seedFromCsv_ok hAgain hErrors
    obtain ⟨hStocks, hTags, -⟩ :=
      ensureCursor_tables (deriveCursorName csvPath) csv.length newIds true db₁
    have hSame : viewOf after = viewOf db₁ := by
      rw [hAfter]
      exact viewOf_congr hStocks hTags
    have hView := viewOf_run hValid hRun (r.data T).symbol
    rw [← hSame] at hView
    obtain ⟨x, hListing⟩ := hListed r hr
    have hFind : ∃ s ∈ after.stocks, s.updatedAt = x.2 := by
      cases hFind : getStockBySymbol after (r.data T).symbol with
      | none =>
          rw [viewOf_none hFind] at hListing
          cases hListing
      | some s =>
          rw [viewOf_some hFind] at hListing
          obtain rfl := Option.some.inj hListing
          exact ⟨s, ((getStockBySymbol_eq_some hValid).mp hFind).1, rfl⟩
    obtain ⟨s, hMem, hTime⟩ := hFind
    have hWall : ∀ e ∈ entriesOf T csv runs (r.data T).symbol, x.2 < e.wall := by
      intro e he
      obtain ⟨line, hLine, rfl⟩ := List.mem_map.mp he
      obtain ⟨k, _, rfl⟩ := List.mem_mapIdx.mp (List.mem_of_mem_filter hLine)
      exact hTime ▸ hLater.updated k s hMem
    have hSettled := settled_of_foldl_eq hListing hWall hView.symm
    -- the row is that of one of the entries
    have hLine : r ∈ (lines csv runs).map Prod.fst := by
      rw [map_fst_lines]
      exact hr
    obtain ⟨line, hMemLine, rfl⟩ := List.mem_map.mp hLine
    exact hSettled (entry T line)
      (List.mem_map_of_mem (List.mem_filter.mpr ⟨hMemLine, decide_eq_true rfl⟩))
  · intro h started runs hLater
    have hLines : ∀ line ∈ lines csv runs, line.1 ∈ csv := by
      intro line hLine
      rw [← map_fst_lines csv runs]
      exact List.mem_map_of_mem hLine
    unfold seedFromCsv
    rw [readCsv, hRead]
    dsimp only
    by_cases hNil : csv = []
    · exact ⟨_, by rw [if_pos hNil], rfl⟩
    · rw [if_neg hNil]
      have hCalm : ∀ line ∈ lines csv runs,
          line.2.upsertRaises = none ∧ line.2.syncRaises = none := by
        intro line hLine
        obtain ⟨k, _, rfl⟩ := List.mem_mapIdx.mp hLine
        exact hLater.calm k
      obtain ⟨summary, hRows, hErrors⟩ :
          ∃ summary, processRows T true started ⟨after, [], ⟨0, 0, 0, 0, 0, []⟩⟩ (lines csv runs) =
            some ⟨after, [], summary⟩ ∧ summary.errors = [] :=
        processRows_settled (fun line hLine => h line.1 (hLines line hLine)) hCalm
      refine ⟨summary, ?_, hErrors⟩
      rw [hRows, Option.map_some, ensureCursor, if_pos ⟨rfl, rfl⟩]

theorem new_iff (hValid : Valid db)
    (hRun : (lines csv runs).foldlM (reconcileRow T started) db = some db₁) :
    (∃ r ∈ csv, getStockBySymbol db (r.data T).symbol = none) ↔ db.nextId < db₁.nextId := by
  have hGrown := (Grown.refl db).reconcileRows hValid hRun
  have hAfter := keyedStep_reconcileRow.inv_foldlM hValid hRun
  constructor
  · rintro ⟨r, hr, hNone⟩
    obtain ⟨x, hListing⟩ := listing_run hValid hRun (List.ne_nil_of_mem (listed_of_mem hr))
    cases hFind : getStockBySymbol db₁ (r.data T).symbol with
    | none =>
        rw [viewOf_none hFind] at hListing
        cases hListing
    | some s =>
        obtain ⟨hMem, hSymbol⟩ := (getStockBySymbol_eq_some hAfter).mp hFind
        rcases hGrown.born s hMem with ⟨old, hOld, hId⟩ | ⟨hNew, -⟩
        · have hOldSymbol := hGrown.symbol_eq hAfter hMem hOld hId
          exact absurd (hOldSymbol.trans hSymbol) (getStockBySymbol_eq_none.mp hNone old hOld)
        · exact Nat.lt_of_le_of_lt hNew (hAfter.drawn s hMem)
  · intro hLt
    obtain ⟨s, hMem, hId⟩ := hGrown.first hLt
    -- a stock with the symbol before the run would have kept another id
    have hNone : getStockBySymbol db s.symbol = none := by
      refine getStockBySymbol_eq_none.mpr fun old hOld hSymbol => ?_
      obtain ⟨s', hMem', hId', hSymbol'⟩ := hGrown.kept old hOld
      have hEq := List.inj_on_of_nodup_map hAfter.symbols hMem' hMem (hSymbol'.trans hSymbol)
      have hDrawn := hValid.drawn old hOld
      rw [← hId', hEq, hId] at hDrawn
      exact Nat.lt_irrefl _ hDrawn
    cases hRows : rowsOf T csv s.symbol with
    | nil =>
        have hView := viewOf_run hValid hRun s.symbol
        have hEntries : (entriesOf T csv runs s.symbol).map Entry.data = [] := by
          rw [data_entriesOf, hRows, List.map_nil]
        rw [List.map_eq_nil_iff.mp hEntries, List.foldl_nil, viewOf_none hNone,
          viewOf_some ((getStockBySymbol_eq_some hAfter).mpr ⟨hMem, rfl⟩)] at hView
        cases congrArg View.listing hView
    | cons r rows =>
        have hr : r ∈ rowsOf T csv s.symbol := hRows ▸ List.mem_cons_self
        obtain ⟨hCsv, hSymbol⟩ := List.mem_filter.mp hr
        rw [← of_decide_eq_true hSymbol] at hNone
        exact ⟨r, hCsv, hNone⟩

/-- The cursor of the file after a run that inserts stocks: its own place, or the beginning. -/
theorem exists_cursor (hValid : Valid db) (cursorName : String) (total : Nat) {newIds : List Nat}
    (hNew : newIds ≠ []) :
    ∃ cursor ∈ (ensureCursor cursorName total newIds true db).cursors, cursor.name = cursorName ∧
      (∀ c ∈ db.cursors, c.name = cursorName →
        cursor.batchSize = c.batchSize ∧ cursor.lastProcessedId = c.lastProcessedId) ∧
      ((∀ c ∈ db.cursors, c.name ≠ cursorName) →
        0 < cursor.batchSize ∧ cursor.lastProcessedId = 0) := by
  unfold ensureCursor
  rw [if_neg fun h => hNew h.2]
  split
  · rename_i hExists
    obtain ⟨c, hc, hName⟩ := hExists
    refine ⟨_, List.mem_map_of_mem hc, ?_⟩
    rw [if_pos hName]
    refine ⟨hName, fun c' hc' hName' => ?_, fun hOther => absurd hName (hOther c hc)⟩
    rw [List.inj_on_of_nodup_map hValid.cursorNames hc' hc (hName'.trans hName.symm)]
    exact ⟨rfl, rfl⟩
  · rename_i hOther
    refine ⟨_, List.mem_append_right _ (List.mem_singleton_self _), rfl, fun c hc hName => ?_,
      fun _ => ⟨Nat.succ_pos _, rfl⟩⟩
    exact absurd ⟨c, hc, hName⟩ hOther

/-- The inserted stocks come in later batches when the cursor has not passed them and has batches. -/
theorem returned_iff (hValid : Valid db) {newIds : List Nat}
    (hRun : (lines csv runs).foldlM (reconcileRow T started) db = some db₁)
    (hDrawn : newIds.length + db.nextId = db₁.nextId)
    (hEnd : after = ensureCursor (deriveCursorName csvPath) csv.length newIds true db₁) :
    (∀ stock ∈ after.stocks, (∀ s ∈ db.stocks, s.id ≠ stock.id) →
      ∃ cursor ∈ after.cursors, cursor.name = deriveCursorName csvPath ∧
        ∃ n, stock.toStockMaster ∈ getNextBatch
          ((Cursor.afterBatch (after.stocks.map MasterRow.toStockMaster))^[n] cursor)
          (after.stocks.map MasterRow.toStockMaster)) ↔
    ((∃ r ∈ csv, getStockBySymbol db (r.data T).symbol = none) →
      ∀ c ∈ db.cursors, c.name = deriveCursorName csvPath →
        0 < c.batchSize ∧ c.lastProcessedId < db.nextId) := by
  have hGrown := (Grown.refl db).reconcileRows hValid hRun
  have hValid₁ := keyedStep_reconcileRow.inv_foldlM hValid hRun
  have hAfter : Valid after := hEnd ▸ valid_ensureCursor hValid₁ _ _ _ _
  have hStocks : after.stocks = db₁.stocks := hEnd ▸ (ensureCursor_tables _ _ _ _ _).1
  have hDistinct : ((after.stocks.map MasterRow.toStockMaster).map StockMaster.id).Nodup := by
    rw [List.map_map]
    exact hAfter.ids
  have hBatch : ∀ {stock : MasterRow} {cursor : Cursor}, stock ∈ after.stocks →
      stock.isActive = true → ((∃ n, stock.toStockMaster ∈ getNextBatch
          ((Cursor.afterBatch (after.stocks.map MasterRow.toStockMaster))^[n] cursor)
          (after.stocks.map MasterRow.toStockMaster)) ↔
        0 < cursor.batchSize ∧ cursor.lastProcessedId < stock.id) :=
    fun hMem hActive => exists_mem_getNextBatch_iff hDistinct (List.mem_map_of_mem hMem) hActive
  have hNewIds : db.nextId < db₁.nextId → newIds ≠ [] := by
    rintro hLt rfl
    rw [List.length_nil] at hDrawn
    omega
  rw [new_iff hValid hRun]
  constructor
  · intro h hLt c hc hName
    obtain ⟨stock, hMem, hId⟩ := hGrown.first hLt
    have hFresh : ∀ s ∈ db.stocks, s.id ≠ stock.id := fun s hs =>
      hId ▸ Nat.ne_of_lt (hValid.drawn s hs)
    have hActive : stock.isActive = true := by
      rcases hGrown.born stock hMem with ⟨old, hOld, hSame⟩ | ⟨-, hActive⟩
      · exact absurd hSame (hFresh old hOld)
      · exact hActive
    rw [← hStocks] at hMem
    obtain ⟨cursor, hCursor, hCursorName, hReturned⟩ := h stock hMem hFresh
    obtain ⟨own, hOwn, hOwnName, hPlace, -⟩ :=
      exists_cursor hValid₁ (deriveCursorName csvPath) csv.length (hNewIds hLt)
    rw [← hEnd] at hOwn
    have hEq := List.inj_on_of_nodup_map hAfter.cursorNames hCursor hOwn
      (hCursorName.trans hOwnName.symm)
    rw [hEq, hBatch hMem hActive, hId] at hReturned
    obtain ⟨hSize, hLast⟩ := hPlace c (hGrown.cursors ▸ hc) hName
    rw [hSize, hLast] at hReturned
    exact hReturned
  · intro h stock hMem hFresh
    have hMem₁ := hStocks ▸ hMem
    obtain ⟨hBorn, hActive⟩ := (hGrown.born stock hMem₁).resolve_left
      fun ⟨old, hOld, hSame⟩ => hFresh old hOld hSame
    have hLt := Nat.lt_of_le_of_lt hBorn (hValid₁.drawn stock hMem₁)
    obtain ⟨cursor, hCursor, hName, hPlace, hNew⟩ :=
      exists_cursor hValid₁ (deriveCursorName csvPath) csv.length (hNewIds hLt)
    rw [← hEnd] at hCursor
    refine ⟨cursor, hCursor, hName, (hBatch hMem hActive).mpr ?_⟩
    by_cases hExists : ∃ c ∈ db₁.cursors, c.name = deriveCursorName csvPath
    · obtain ⟨c, hc, hcName⟩ := hExists
      obtain ⟨hSize, hLast⟩ := hPlace c hc hcName
      obtain ⟨hPos, hAbove⟩ := h hLt c (hGrown.cursors ▸ hc) hcName
      rw [hSize, hLast]
      exact ⟨hPos, Nat.lt_of_lt_of_le hAbove hBorn⟩
    · obtain ⟨hPos, hZero⟩ := hNew fun c hc hcName => hExists ⟨c, hc, hcName⟩
      rw [hZero]
      exact ⟨hPos, Nat.lt_of_lt_of_le hValid.positive hBorn⟩

theorem listing_eq_none {symbol : String} :
    (viewOf db symbol).listing = none ↔ getStockBySymbol db symbol = none := by
  cases hFind : getStockBySymbol db symbol with
  | none => simp [viewOf_none hFind]
  | some s => simp [viewOf_some hFind]

/-- What the file asks of one symbol, said of its view after the run and of its rows. -/
theorem symbol_settled_iff {symbol : String} {row : CsvRow} {v : View}
    (hLast : (rowsOf T csv symbol).getLast? = some row)
    (hView : v = (entriesOf T csv runs symbol).foldl (View.seeded T started) (viewOf db symbol)) :
    ((∀ tag, 0 < v.count tag ↔ tag ∈ row.tagSet T) ∧ (∀ tag, v.count tag ≤ 1) ∧
        ∀ r ∈ rowsOf T csv symbol, Settled v (r.data T) (r.tagSet T)) ↔
      (∀ a ∈ rowsOf T csv symbol, ∀ b ∈ rowsOf T csv symbol, Agree (a.data T) (b.data T)) ∧
        (getStockBySymbol db symbol = none → ∀ first rest,
          (rowsOf T csv symbol).map (CsvRow.data T) = first :: rest →
            Stays T StockData.sector first rest ∧ Stays T StockData.industry first rest) ∧
        (∀ r ∈ rowsOf T csv symbol, r.tagSet T ≠ [] → ∀ tag, tag ∈ r.tagSet T ↔ tag ∈ row.tagSet T) ∧
        ∀ tag, (viewOf db symbol).count tag ≤ if tag ∈ row.tagSet T then 1
          else (rowsOf T csv symbol).countP fun r => r.tagSet T ≠ [] := by
  have hMem : row ∈ rowsOf T csv symbol := List.mem_of_getLast? hLast
  have hData : (entriesOf T csv runs symbol).map Entry.data =
    (rowsOf T csv symbol).map (CsvRow.data T) := data_entriesOf
  have hSets : (entriesOf T csv runs symbol).map Entry.tags =
    (rowsOf T csv symbol).map (CsvRow.tagSet T) := tags_entriesOf
  have hNe : entriesOf T csv runs symbol ≠ [] := by
    intro hNil
    rw [hNil] at hData
    exact List.ne_nil_of_mem hMem (List.map_eq_nil_iff.mp hData.symm)
  have hLastSet : row.tagSet T ∈ (entriesOf T csv runs symbol).map Entry.tags := by
    rw [hSets]
    exact List.mem_map_of_mem hMem
  have hTagsIff := @tags_settled_iff T started (viewOf db symbol) _ _ hLastSet
  have hColumnsIff := @columns_settled_iff T started (viewOf db symbol) _ hNe
  have hTagged : tagged ((rowsOf T csv symbol).map (CsvRow.tagSet T)) =
      (rowsOf T csv symbol).countP fun r => r.tagSet T ≠ [] := List.countP_map
  rw [← hView, hSets, hTagged] at hTagsIff
  rw [← hView, hData, listing_eq_none] at hColumnsIff
  simp only [List.forall_mem_map, SameTags] at hTagsIff hColumnsIff
  constructor
  · rintro ⟨hExact, hSingle, hSettled⟩
    obtain ⟨hAgree, hClean⟩ := hColumnsIff.mp fun r hr => (hSettled r hr).1
    obtain ⟨hSame, hHeld⟩ := hTagsIff.mp ⟨hExact, hSingle, fun r hr => (hSettled r hr).2⟩
    exact ⟨hAgree, hClean, hSame, hHeld⟩
  · rintro ⟨hAgree, hClean, hSame, hHeld⟩
    obtain ⟨hExact, hSingle, hTags⟩ := hTagsIff.mpr ⟨hSame, hHeld⟩
    have hColumns := hColumnsIff.mpr ⟨hAgree, hClean⟩
    exact ⟨hExact, hSingle, fun r hr => ⟨hColumns r hr, hTags r hr⟩⟩

/-- **An update reconciles the universe with its file exactly when the two fit together.** -/
theorem reconciled_iff (hValid : Valid db)
    (h : seedFromCsv T csvPath true started runs db (some csv) = some (after, summary))
    (hErrors : summary.errors = []) :
    Reconciled T csvPath csv db after ↔ Mergeable T csvPath csv db := by
  obtain ⟨hRead, db₁, newIds, hRun, hDrawn, hEnd⟩ := seedFromCsv_ok h hErrors
  have hValid₁ := keyedStep_reconcileRow.inv_foldlM hValid hRun
  have hAfter : Valid after := hEnd ▸ valid_ensureCursor hValid₁ _ _ _ _
  have hSame : viewOf after = viewOf db₁ := by
    obtain ⟨hStocks, hTags, -⟩ :=
      ensureCursor_tables (deriveCursorName csvPath) csv.length newIds true db₁
    rw [hEnd, viewOf_congr hStocks hTags]
  have hView : ∀ symbol, viewOf after symbol =
      (entriesOf T csv runs symbol).foldl (View.seeded T started) (viewOf db symbol) :=
    fun symbol => (congrFun hSame symbol).trans (viewOf_run hValid hRun symbol)
  have hListed : ∀ symbol, rowsOf T csv symbol ≠ [] →
      ∃ stock, getStockBySymbol after symbol = some stock := by
    intro symbol hRows
    obtain ⟨x, hListing⟩ := listing_run hValid hRun hRows
    rw [← hSame] at hListing
    cases hFind : getStockBySymbol after symbol with
    | none =>
        rw [viewOf_none hFind] at hListing
        cases hListing
    | some stock => exact ⟨stock, rfl⟩
  have hUnlisted : ∀ symbol, rowsOf T csv symbol = [] → viewOf after symbol = viewOf db symbol := by
    intro symbol hRows
    have hEntries : (entriesOf T csv runs symbol).map Entry.data = [] := by
      rw [data_entriesOf, hRows, List.map_nil]
    rw [hView, List.map_eq_nil_iff.mp hEntries, List.foldl_nil]
  have hSymbol := fun symbol row (hLast : (rowsOf T csv symbol).getLast? = some row) =>
    symbol_settled_iff hLast (hView symbol)
  have hFound : ∀ r ∈ csv, ∃ x, (viewOf after (r.data T).symbol).listing = some x := by
    intro r hr
    obtain ⟨stock, hFind⟩ := hListed _ (List.ne_nil_of_mem (listed_of_mem hr))
    exact ⟨_, by rw [viewOf_some hFind]⟩
  have hAgain := @again_iff T csvPath csv after hAfter hRead hFound
  have hReturned := returned_iff hValid hRun hDrawn hEnd
  constructor
  · rintro ⟨hTags, hSingle, hRepeat, hBatches⟩
    have hSettled := hAgain.mp hRepeat
    have hOne := (single_iff hAfter).mp hSingle
    have hEach := fun symbol row hLast => (hSymbol symbol row hLast).mp (by
      refine ⟨?_, hOne symbol, fun r hr => ?_⟩
      · obtain ⟨stock, hFind⟩ := hListed symbol (List.ne_nil_of_mem (List.mem_of_getLast? hLast))
        obtain ⟨hMem, hStock⟩ := (getStockBySymbol_eq_some hAfter).mp hFind
        intro tag
        rw [viewOf_some hFind, ← mem_activeTags]
        exact hTags symbol row hLast stock hMem hStock tag
      · obtain ⟨hCsv, hEq⟩ := List.mem_filter.mp hr
        have hRow := hSettled r hCsv
        rw [of_decide_eq_true hEq] at hRow
        exact hRow)
    have hRows : ∀ symbol, ∀ r ∈ rowsOf T csv symbol,
        ∃ row, (rowsOf T csv symbol).getLast? = some row := fun symbol r hr =>
      ⟨_, List.getLast?_eq_some_getLast (List.ne_nil_of_mem hr)⟩
    constructor
    · intro symbol a ha b hb
      obtain ⟨row, hLast⟩ := hRows symbol a ha
      exact (hEach symbol row hLast).1 a ha b hb
    · intro symbol first rest hCons hNone
      have hNe : rowsOf T csv symbol ≠ [] := by
        intro hNil
        rw [hNil] at hCons
        cases hCons
      obtain ⟨r, hr⟩ := List.exists_mem_of_ne_nil _ hNe
      obtain ⟨row, hLast⟩ := hRows symbol r hr
      exact (hEach symbol row hLast).2.1 hNone first rest hCons
    · intro symbol row hLast
      exact (hEach symbol row hLast).2.2.1
    · intro symbol row hLast
      exact (count_le_iff hValid).mp (hEach symbol row hLast).2.2.2
    · intro stock hMem hRows
      have hStock := hOne stock.symbol
      rw [hUnlisted _ hRows] at hStock
      exact (count_le_iff hValid).mp hStock stock hMem rfl
    · exact hReturned.mp hBatches
  · rintro ⟨hAgree, hClean, hTags, hHeld, hOthers, hCursor⟩
    have hEach := fun symbol row hLast => (hSymbol symbol row hLast).mpr
      ⟨hAgree symbol, fun hNone first rest hCons => hClean symbol first rest hCons hNone,
        hTags symbol row hLast, (count_le_iff hValid).mpr (hHeld symbol row hLast)⟩
    constructor
    · intro symbol row hLast stock hMem hStock tag
      have hExact := (hEach symbol row hLast).1 tag
      rw [viewOf_some ((getStockBySymbol_eq_some hAfter).mpr ⟨hMem, hStock⟩)] at hExact
      exact mem_activeTags.trans hExact
    · refine (single_iff hAfter).mpr fun symbol => ?_
      cases hLast : (rowsOf T csv symbol).getLast? with
      | none =>
          have hNil := List.getLast?_eq_none_iff.mp hLast
          rw [hUnlisted symbol hNil]
          refine (count_le_iff hValid).mpr fun stock hMem hStock => ?_
          exact hOthers stock hMem (hStock ▸ hNil)
      | some row => exact (hEach symbol row hLast).2.1
    · refine hAgain.mpr fun r hr => ?_
      have hMem : r ∈ rowsOf T csv (r.data T).symbol := listed_of_mem hr
      exact (hEach _ _ (List.getLast?_eq_some_getLast (List.ne_nil_of_mem hMem))).2.2 r hMem
    · exact hReturned.mpr hCursor

end Main

/-! ## One stock -/

/-- A row of a file with one stock. -/
def exampleRow (tags : String) : CsvRow where
  symbol := some "TCS"
  name := some "Tata Consultancy"
  isin := none
  exchange := some "NSE"
  sector := some "IT"
  industry := none
  tags := some tags

/-- The stock as such a row leaves it. -/
def exampleStock : MasterRow where
  id := 1
  symbol := "TCS"
  yfTicker := "TCS.NS"
  currency := "INR"
  isActive := true
  name := "Tata Consultancy"
  isin := none
  exchange := "NSE"
  sector := some "IT"
  industry := none
  nseSymbol := "TCS"
  updatedAt := 10

def exampleRun (_ : Nat) : RowRun := ⟨none, none, 20⟩

/-- **A row without tags leaves the tags of its stock active.** -/
theorem seed_keepsTags : ¬ ∀ (T : CharTables) (csvPath : String) (csv : List CsvRow) (started : Nat)
    (runs : Nat → RowRun) (db after : Db) (summary : Summary), Valid db →
    seedFromCsv T csvPath true started runs db (some csv) = some (after, summary) →
    summary.errors = [] → Reconciled T csvPath csv db after := by
  intro h
  have hReconciled := h .ascii "nifty.csv" [exampleRow ""] 15 exampleRun
    ⟨[exampleStock], 2, [⟨1, "nifty50", 10, none⟩], []⟩
    ⟨[exampleStock], 2, [⟨1, "nifty50", 10, none⟩], []⟩ ⟨0, 1, 0, 0, 0, []⟩
    ⟨by decide, by decide, by decide, by decide, by decide, by decide⟩ rfl rfl
  have hTags := (hReconciled.tags "TCS" (exampleRow "") rfl exampleStock
    (List.mem_singleton_self _) rfl "nifty50").mp (List.mem_singleton_self _)
  revert hTags
  decide +kernel

/-- A new stock with a tag. -/
theorem reconciled_iff_new : Reconciled .ascii "nifty.csv" [exampleRow "nifty50"] ⟨[], 1, [], []⟩
    ⟨[exampleStock], 2, [⟨1, "nifty50", 10, none⟩], [⟨"nifty_bulk", 1, 0, 50, .pending⟩]⟩ := by
  refine (reconciled_iff ⟨by decide, by decide, by decide, by decide, by decide, by decide⟩
    (show seedFromCsv .ascii "nifty.csv" true 10 exampleRun _ _ = some (_, ⟨1, 0, 0, 1, 0, []⟩)
      from rfl) rfl).mpr ?_
  have hOnly : ∀ symbol, ∀ r ∈ rowsOf .ascii [exampleRow "nifty50"] symbol,
      r = exampleRow "nifty50" := fun symbol r hr =>
    List.mem_singleton.mp (List.mem_of_mem_filter hr)
  constructor
  · intro symbol a ha b hb
    rw [hOnly symbol a ha, hOnly symbol b hb]
    have hEq : ∀ {o : Option String} (x y : String), o = some x → o = some y → x = y :=
      fun x y hx hy => Option.some.inj (hx.symm.trans hy)
    exact ⟨rfl, hEq, rfl, hEq, hEq⟩
  · intro symbol first rest hCons _
    obtain ⟨r, rows, hRows, rfl, -⟩ := List.map_eq_cons_iff.mp hCons
    rw [hOnly symbol r (hRows ▸ List.mem_cons_self)]
    have hStays : ∀ x, x = "IT" → safeStr .ascii (some x) = some x := by
      rintro x rfl
      decide +kernel
    refine ⟨fun x hx => Or.inl (hStays x ?_), fun x hx => ?_⟩
    · exact (Option.some.inj (Eq.trans (by decide +kernel) hx)).symm
    · exact absurd (Eq.trans (by decide +kernel) hx : none = some x) (by simp)
  · intro symbol row hLast r hr _ tag
    rw [hOnly symbol r hr, hOnly symbol row (List.mem_of_getLast? hLast)]
  · exact fun symbol row hLast stock hMem => absurd hMem List.not_mem_nil
  · exact fun stock hMem => absurd hMem List.not_mem_nil
  · exact fun _ c hc => absurd hc List.not_mem_nil

end AsetPlatform.Ingestion.SeedUniverse
