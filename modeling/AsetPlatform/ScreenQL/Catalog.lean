import AsetPlatform.Library.CloseMatches
import AsetPlatform.Library.Dict
import AsetPlatform.Library.Sql

/-!
# The ScreenQL field catalog

The fields a query may name, the relation and the column each is read from, and the operators each
field type allows. The numbers of a query are exact decimals here; the source rounds those with a
decimal point to the nearest double.
-/

set_option autoImplicit false

namespace AsetPlatform.ScreenQL

open AsetPlatform.Library AsetPlatform.Library.Sql

/-- `FieldType`. -/
inductive FieldType where
  | number | text | array
  deriving DecidableEq, Repr

def FieldType.name : FieldType → String
  | number => "number"
  | text => "text"
  | array => "array"

/-- The table aliases of the generated SQL. -/
inductive Alias where
  | ci | as_ | ps | fr | ss | qr | st
  deriving DecidableEq, Repr

def Alias.text : Alias → String
  | ci => "ci"
  | as_ => "as_"
  | ps => "ps"
  | fr => "fr"
  | ss => "ss"
  | qr => "qr"
  | st => "st"

structure FieldDef where
  table : Alias
  column : String
  type : FieldType
  label : String
  category : String
  deriving DecidableEq, Repr

/-- `FIELD_CATALOG`. -/
def fieldCatalog : Dict String FieldDef where
  entries := [
    ("ticker", ⟨.ci, "ticker", .text, "Ticker", "Identity"⟩),
    ("company_name", ⟨.ci, "company_name", .text, "Company Name", "Identity"⟩),
    ("sector", ⟨.ci, "sector", .text, "Sector", "Identity"⟩),
    ("industry", ⟨.ci, "industry", .text, "Industry", "Identity"⟩),
    ("market", ⟨.ci, "market", .text, "Market", "Identity"⟩),
    ("currency", ⟨.ci, "currency", .text, "Currency", "Identity"⟩),
    ("market_cap", ⟨.ci, "market_cap", .number, "Market Cap", "Valuation"⟩),
    ("pe_ratio", ⟨.ci, "pe_ratio", .number, "P/E Ratio", "Valuation"⟩),
    ("peg_ratio", ⟨.ci, "peg_ratio", .number, "PEG (trailing)", "Valuation"⟩),
    ("peg_ratio_yf", ⟨.ci, "peg_ratio_yf", .number, "PEG (yfinance)", "Valuation"⟩),
    ("price_to_book", ⟨.ci, "price_to_book", .number, "Price/Book", "Valuation"⟩),
    ("dividend_yield", ⟨.ci, "dividend_yield", .number, "Dividend Yield", "Valuation"⟩),
    ("current_price", ⟨.ci, "current_price", .number, "Current Price", "Valuation"⟩),
    ("week_52_high", ⟨.ci, "week_52_high", .number, "52W High", "Valuation"⟩),
    ("week_52_low", ⟨.ci, "week_52_low", .number, "52W Low", "Valuation"⟩),
    ("profit_margins", ⟨.ci, "profit_margins", .number, "Profit Margins", "Profitability"⟩),
    ("earnings_growth", ⟨.ci, "earnings_growth", .number, "Earnings Growth", "Profitability"⟩),
    ("revenue_growth", ⟨.ci, "revenue_growth", .number, "Revenue Growth", "Profitability"⟩),
    ("revenue", ⟨.qr, "revenue", .number, "Revenue", "Profitability"⟩),
    ("net_income", ⟨.qr, "net_income", .number, "Net Income", "Profitability"⟩),
    ("eps", ⟨.qr, "eps_diluted", .number, "EPS", "Profitability"⟩),
    ("sharpe_ratio", ⟨.as_, "sharpe_ratio", .number, "Sharpe Ratio", "Risk"⟩),
    ("annualized_return_pct", ⟨.as_, "annualized_return_pct", .number, "Ann. Return %", "Risk"⟩),
    ("annualized_volatility_pct", ⟨.as_, "annualized_volatility_pct", .number, "Ann. Volatility %", "Risk"⟩),
    ("max_drawdown_pct", ⟨.as_, "max_drawdown_pct", .number, "Max Drawdown %", "Risk"⟩),
    ("beta", ⟨.ci, "beta", .number, "Beta", "Risk"⟩),
    ("rsi_14", ⟨.as_, "rsi_14", .number, "RSI 14", "Technical"⟩),
    ("rsi_signal", ⟨.as_, "rsi_signal", .text, "RSI Signal", "Technical"⟩),
    ("macd_signal", ⟨.as_, "macd_signal_text", .text, "MACD Signal", "Technical"⟩),
    ("sma_200_signal", ⟨.as_, "sma_200_signal", .text, "SMA 200 Signal", "Technical"⟩),
    ("sentiment_score", ⟨.ss, "avg_score", .number, "Sentiment Score", "Technical"⟩),
    ("piotroski_score", ⟨.ps, "total_score", .number, "Piotroski Score", "Quality"⟩),
    ("piotroski_label", ⟨.ps, "label", .text, "Piotroski Label", "Quality"⟩),
    ("forecast_confidence", ⟨.fr, "confidence_score", .number, "Forecast Confidence", "Quality"⟩),
    ("target_3m_pct", ⟨.fr, "target_3m_pct_change", .number, "3M Target %", "Forecast"⟩),
    ("target_6m_pct", ⟨.fr, "target_6m_pct_change", .number, "6M Target %", "Forecast"⟩),
    ("target_9m_pct", ⟨.fr, "target_9m_pct_change", .number, "9M Target %", "Forecast"⟩)
  ]
  nodup := by decide

/-- `get_field_catalog_json`: name, label, type and category of each field. -/
def getFieldCatalogJson : List (String × String × String × String) :=
  fieldCatalog.entries.map fun e => (e.1, e.2.label, e.2.type.name, e.2.category)

/-- `_suggest_field`. -/
def suggestField (name : List Char) : Option String := closeMatch (3 / 5) name fieldCatalog.keys

/-- The operators of conditions. -/
inductive Operator where
  | compare (o : Comparison)
  | contains
  deriving DecidableEq, Repr

def Operator.text : Operator → String
  | compare o => o.text
  | contains => "CONTAINS"

/-- `NUMERIC_OPS`, `TEXT_OPS` and `ARRAY_OPS`, by field type. -/
def FieldType.operators : FieldType → List Operator
  | number => [.compare .gt, .compare .lt, .compare .ge, .compare .le, .compare .eq, .compare .ne]
  | text => [.compare .eq, .compare .ne]
  | array => [.contains]

/-- A number as the tokenizer reads it. -/
inductive NumberLit where
  | int (n : Int)
  | float (q : ℚ)
  deriving DecidableEq, Repr

def NumberLit.value : NumberLit → ℚ
  | int n => n
  | float q => q

/-- The value of a condition. -/
inductive Literal where
  | number (n : NumberLit)
  | text (s : String)
  deriving DecidableEq, Repr

/-- The parameter that carries the value into the SQL. -/
def Literal.param : Literal → Value
  | number n => .number ((n.value : ℚ) : WithTop ℚ)
  | text s => .text s

/-- Number fields take numbers, the others take quoted strings. -/
def Literal.fits : Literal → FieldType → Bool
  | number _, .number => true
  | text _, .text => true
  | text _, .array => true
  | _, _ => false

end AsetPlatform.ScreenQL
