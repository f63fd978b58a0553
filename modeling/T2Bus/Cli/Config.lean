import T2Bus.Lib.Regex

/-!
# The bus registry of the command line

The `t2` program keeps a list of named bus addresses in the file `.t2` of the home directory: a line
for each, read back with a regular expression that is searched for all over the file.

* `busAddrNameRgx`, `busAddrRgx`, `busAddrConfigRgx`; `validateBusAddrName`, `validateBusAddr`;
* `parseConfig`, `resolveAddr`, `configStr`;
* `Command.run`: the commands that change the file. Reading and writing it succeeds, and a path is its
  text.
-/

namespace T2Bus

namespace Cli

open Regex

inductive ResolvedBusAddr where
  | tcp (addr : String)
  | unix (addr : String)
  deriving DecidableEq

def ResolvedBusAddr.display : ResolvedBusAddr → String
  | .tcp addr => "tcp:" ++ addr
  | .unix addr => "unix:" ++ addr

/-- How a command can fail: with an error, or by a panic. -/
inductive Fault where
  | error (message : String)
  | panic
  deriving DecidableEq

/-! ## Regular expressions -/

/-- The characters of `[a-z_]`. -/
def nameChar (c : Char) : Bool := decide ('a' ≤ c ∧ c ≤ 'z') || c == '_'

/-- `BUS_ADDR_NAME_RGX`: `^[a-z_]+$` -/
def busAddrNameRgx : Regex := anchored (plus false nameChar)

/-- `BUS_ADDR_RGX`: `^(tcp|unix|name):(.+)$` -/
def busAddrRgx : Regex :=
  anchored (cat [group 1 (alt (literal "tcp".toList) (alt (literal "unix".toList)
    (literal "name".toList))), literal [':'], group 2 (plus false dot)])

/-- `BUS_ADDR_CONFIG_RGX`: `(.+?) (tcp|unix):(.*?)\n` -/
def busAddrConfigRgx : Regex :=
  cat [group 1 (plus true dot), literal [' '],
    group 2 (alt (literal "tcp".toList) (literal "unix".toList)), literal [':'],
    group 3 (many true dot), literal ['\n']]

def validateBusAddrName (s : String) : Except String String :=
  if isMatch busAddrNameRgx s then .ok s
  else .error "Invalid bus address name, must contain only lowercase and underscore."

def validateBusAddr (s : String) : Except String String :=
  if isMatch busAddrRgx s then .ok s
  else .error "Invalid bus address. Must be in the format of (tcp|unix|name):<address or name>"

/-! ## The file -/

/-- The registered names with their addresses; the first one is the default. -/
abbrev Config := List (String × ResolvedBusAddr)

/-- What a command finds: no `HOME` variable, or the content of the file `.t2` if there is one. -/
inductive Home where
  | unset
  | set (config : Option String)
  deriving DecidableEq

/-- The entry that was captured. -/
def entry (m : Match) : Except Fault (String × ResolvedBusAddr) :=
  match m.get? 1, m.get? 3, m.get? 2 with
  | some name, some addr, some "tcp" => .ok (name, .tcp addr)
  | some name, some addr, some "unix" => .ok (name, .unix addr)
  | _, _, _ => .error .panic

def parseConfig : Home → Except Fault Config
  | .unset => .ok []
  | .set none => .ok []
  | .set (some config) => (capturesIter busAddrConfigRgx config).mapM entry

def resolveAddr (addr : Option String) (home : Home) : Except Fault ResolvedBusAddr :=
  match addr with
  | some addr =>
    match captures busAddrRgx addr with
    | some m =>
      match m.get? 1, m.get? 2 with
      | some "tcp", some addr => .ok (.tcp addr)
      | some "unix", some addr => .ok (.unix addr)
      | some "name", some addr => do
        let config ← parseConfig home
        match config.find? fun e => e.1 == addr with
        | some e => .ok e.2
        | none => .error (.error ("Name is not registered: " ++ addr))
      | some _, some _ => .error (.error "Invalid address type")
      | _, _ => .error .panic
    | none => .error .panic
  | none => do
    match ← parseConfig home with
    | [] => .error (.error ("No default address found in config. Use the register command to add one "
        ++ "or specify an address"))
    | e :: _ => .ok e.2

/-- The line of an entry. -/
def entryStr (e : String × ResolvedBusAddr) : String := e.1 ++ " " ++ e.2.display ++ "\n"

def configStr (config : Config) : String := String.join (config.map entryStr)

/-! ## Commands -/

/-- The `Commands` that change the file. -/
inductive Command where
  | register (name addr : String) (isDefault : Bool)
  | unregister (name : String)
  deriving DecidableEq

namespace Command

/-- The argument parser accepts the arguments. -/
def Valid : Command → Prop
  | register name addr _ => validateBusAddrName name = .ok name ∧ validateBusAddr addr = .ok addr
  | unregister name => validateBusAddrName name = .ok name

instance : DecidablePred Valid
  | register _ _ _ => inferInstanceAs (Decidable (_ ∧ _))
  | unregister _ => inferInstanceAs (Decidable (_ = _))

/-- The home directory after a command that succeeds. -/
def run (command : Command) (home : Home) : Except Fault Home :=
  match command, home with
  | _, .unset => .error (.error "HOME environment variable not set")
  | register name addr isDefault, .set _ => do
    let resolvedAddr ← resolveAddr (some addr) home
    let config ← parseConfig home
    let config := config.filter fun e => e.1 != name
    let config := if isDefault then (name, resolvedAddr) :: config else config ++ [(name, resolvedAddr)]
    return .set (some (configStr config))
  | unregister name, .set _ => do
    let config ← parseConfig home
    let config := config.filter fun e => e.1 != name
    return .set (some (configStr config))

end Command

end Cli

end T2Bus
