import Montage.Environment
import Montage.Text.Blank
import Montage.Text.Pieces

/-! What the service depends on besides the renders. -/

namespace Montage.Service

structure Settings where
  host : String := "0.0.0.0"
  port : Nat := 8000
  /-- The origins whose pages may use the service. -/
  origins : List String := ["*"]
  /-- The largest body of a request, in bytes. -/
  bodyLimit : Nat := 52428800
  /-- A name for the surroundings that the service runs in. -/
  surroundings : String := "development"
  /-- Whether counts can be asked for. -/
  showsMetrics : Bool := true
  deriving DecidableEq

namespace Settings

/-- The items of a list with commas between them, each without the blanks around it. -/
def readList (text : String) : List String :=
  (Text.pieces (· = ',') text.toList).map fun item => String.ofList (Text.trim item)

/-- The settings that the environment gives. What cannot be read counts as not given. -/
def ofEnvironment (environment : Environment) : Settings :=
  let standard : Settings := {}
  { host := (environment.get? "API_HOST").getD standard.host
    port := (environment.natural? "API_PORT" (UInt16.size - 1)).getD standard.port
    origins := ((environment.get? "CORS_ORIGINS").map readList).getD standard.origins
    bodyLimit := (environment.natural? "MAX_BODY_SIZE" (UInt64.size - 1)).getD standard.bodyLimit
    surroundings := (environment.get? "ENVIRONMENT").getD standard.surroundings
    showsMetrics := ((environment.get? "METRICS_ENABLED").map
      fun value => value = "true" || value = "1").getD standard.showsMetrics }

/-- Whether the service runs for its users, in whatever case the word is written. -/
def isProduction (settings : Settings) : Bool :=
  settings.surroundings.toLower = "production"

/-- Whether details of failures are kept from users. The word counts in small letters only. -/
def hidesDetails (settings : Settings) : Bool :=
  settings.surroundings = "production"

end Settings

end Montage.Service
