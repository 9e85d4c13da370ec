import UpdateFeed.Binary64.Decimal
import UpdateFeed.Text.Quoted

/-!
# TOML values

The values of a configuration text.  A table lists its entries in the order of the text.  For
messages a value is described by its type, and by its text where it is short.
-/

namespace UpdateFeed.Toml

/-- A floating point number. -/
inductive Real where
  | finite (negative : Bool) (magnitude : Binary64)
  | infinite (negative : Bool)
  | notANumber
  deriving DecidableEq, Repr

/-- A value of a configuration text. -/
inductive Value where
  | string (text : String)
  | integer (value : Int)
  | real (value : Real)
  | boolean (value : Bool)
  /-- A date, a time of day, or both, in normal form. -/
  | moment (text : String)
  | array (items : List Value)
  | table (entries : List (String × Value))
  deriving Repr, Inhabited

/-- The text of a number, always with a point. -/
def Real.text : Real → String
  | .finite negative magnitude =>
    (if negative then "-" else "")
      ++ String.ofList (DecimalLayout.positional.render magnitude.shortest)
  | .infinite negative => if negative then "-inf" else "inf"
  | .notANumber => "NaN"

/-- What a value is, in words. -/
def Value.description : Value → String
  | .string text => "string " ++ Text.quoted text
  | .integer value => "integer `" ++ toString value ++ "`"
  | .real value => "floating point `" ++ value.text ++ "`"
  | .boolean value => "boolean `" ++ toString value ++ "`"
  | .moment _ => "map"
  | .array _ => "sequence"
  | .table _ => "map"

end UpdateFeed.Toml
