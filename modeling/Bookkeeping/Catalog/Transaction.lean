import Bookkeeping.Catalog
import Bookkeeping.Store

/-!
# Ledger transactions

The domain of a family's transactions. A transaction belongs to the base table; its name,
amount and date are columns of its entry, which has to be joined. Transactions marked as
excluded are out of the scope of every rule.
-/

namespace Bookkeeping.Transaction

def baseTable : String := "transactions"

def entries : String := "entries"

def name : Column := ⟨entries, "name"⟩

def amount : Column := ⟨entries, "amount"⟩

def date : Column := ⟨entries, "date"⟩

def merchant : Column := ⟨baseTable, "merchant_id"⟩

def category : Column := ⟨baseTable, "category_id"⟩

def excluded : Column := ⟨baseTable, "excluded"⟩

/-- Conditions on the name of a transaction. -/
def nameCondition : ConditionType where
  key := "transaction_name"
  label := "Name"
  kind := .text
  column := name
  relation := some entries

/-- Conditions on the amount of a transaction. -/
def amountCondition : ConditionType where
  key := "transaction_amount"
  label := "Amount"
  kind := .number .decimal
  column := amount
  relation := some entries

/-- Conditions on the merchant of a transaction, one of the owner's. -/
def merchantCondition (vocabulary : Vocabulary) : ConditionType where
  key := "transaction_merchant"
  label := "Merchant"
  kind := .select
  column := merchant
  options := some vocabulary.merchants

/-- Conditions on the date of a transaction; authors do not name them. -/
def dateCondition : ConditionType where
  key := "transaction_date"
  label := "Date"
  kind := .date
  column := date
  relation := some entries

/-- The conditions authors may use. -/
def conditions (vocabulary : Vocabulary) : List ConditionType :=
  [nameCondition, amountCondition, merchantCondition vocabulary]

/-- The actions authors may use. -/
def actions (vocabulary : Vocabulary) : List ActionType :=
  [ { key := "set_transaction_category", label := "Set category", effect := .assign,
      column := category, options := some vocabulary.categories },
    { key := "set_transaction_merchant", label := "Set merchant", effect := .assign,
      column := merchant, options := some vocabulary.merchants },
    { key := "set_transaction_name", label := "Set name", effect := .setText, column := name },
    { key := "auto_categorize", label := "Auto-categorize", effect := .enrich,
      column := category, options := some vocabulary.categories },
    { key := "auto_detect_merchants", label := "Auto-detect merchants", effect := .enrich,
      column := merchant, options := some vocabulary.merchants } ]

/-- The catalog of the domain. -/
def catalog (vocabulary : Vocabulary) : Catalog where
  domain := .transaction
  scope := .compare excluded .eq (.flag false)
  conditions := conditions vocabulary
  actions := actions vocabulary
  effectiveDate := dateCondition

/-- A store without transactions, in which a transaction is not excluded unless inserted so. -/
def emptyStore : Store :=
  (Store.empty baseTable).withDefault excluded (.flag false)

end Bookkeeping.Transaction
