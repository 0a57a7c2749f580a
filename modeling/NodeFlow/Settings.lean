import NodeFlow.Decimal.Numeral
import NodeFlow.Json.Basic
import NodeFlow.Text.Upper

/-!
# Settings

The settings of an editor, read from named texts.  A text that cannot be read counts as absent.

Main results:

- Type `Settings` and definition `Settings.ofTexts`.
- Theorem `Settings.maxHops_pos`: the bound on chains that is read is positive.
-/

namespace NodeFlow

/-- The settings of an editor.  Without timeout, a backend that hangs holds the queue up. -/
structure Settings where
  backendUrl : String := "http://127.0.0.1:8188"
  /-- The name under which prompts are submitted; none if one has to be made up. -/
  clientId : Option String := none
  devMode : Bool := false
  maxHops : Int := 64
  timeout : Option Float := none
  logLevel : String := "INFO"
  deriving Inhabited

namespace Settings

/-- The words that switch something on. -/
def switchWords : List String := ["1", "true", "yes", "on"]

/-- Whether a text switches something on. -/
def readSwitch (s : String) : Bool := switchWords.contains (Text.lowerAscii (Text.strip s))

/-- A positive whole number, or the given one. -/
def readPositive (s : String) (otherwise : Int) : Int :=
  match Decimal.readInt Text.digitValue? s with
  | .whole n => if 0 < n then n else otherwise
  | _ => otherwise

/-- A positive number of seconds. -/
def readTimeout (s : String) : Option Float :=
  match Decimal.readFloat? Text.digitValue? (Text.strip s) with
  | some x => if x > 0.0 then some x else none
  | none => none

/-- The settings that named texts give. -/
def ofTexts (texts : Table String) : Settings :=
  let d : Settings := {}
  { backendUrl := Text.stripEnd '/' ((texts.get? "BACKEND_URL").getD d.backendUrl)
    clientId := (texts.get? "CLIENT_ID").filter (· ≠ "")
    devMode := ((texts.get? "DEV_MODE").map readSwitch).getD d.devMode
    maxHops := ((texts.get? "MAX_LINK_HOPS").map (readPositive · d.maxHops)).getD d.maxHops
    timeout := (texts.get? "BACKEND_TIMEOUT").bind readTimeout
    logLevel := Text.upper ((texts.get? "LOG_LEVEL").getD d.logLevel) }

/-- Settings as a value, with the name to show where one has to be made up. -/
def toJson (s : Settings) (madeUp : String) : Json :=
  .obj [("backend_url", .str s.backendUrl), ("client_id", .str (s.clientId.getD madeUp)),
    ("dev_mode", .bool s.devMode), ("max_link_hops", .int s.maxHops),
    ("backend_timeout", Json.ofOption (s.timeout.map .float)), ("log_level", .str s.logLevel)]

/-- What is read instead of a number that is not positive is positive, too. -/
theorem readPositive_pos (s : String) {n : Int} (h : 0 < n) : 0 < readPositive s n := by
  unfold readPositive
  split
  · split <;> assumption
  · exact h

/-- The bound on chains is positive, whatever the settings say. -/
theorem maxHops_pos (texts : Table String) : 0 < (ofTexts texts).maxHops := by
  simp only [ofTexts]
  cases texts.get? "MAX_LINK_HOPS" with
  | none => decide
  | some s => exact readPositive_pos s (by decide)

end Settings

end NodeFlow
