/-!
# The command line of the demonstration

Options are read from left to right.  A number is given as the next argument or after an equals
sign; every option may be given once; asking for the version or for help ends the reading.
-/

namespace ScriptCore

/-- What the demonstration is asked to do. -/
structure Options where
  /-- Isolates to start. -/
  isolates : UInt64 := 8
  /-- Mortal cells that trigger the first collection. -/
  allocLimit : UInt64 := 100000
  /-- Every so many isolates one fails; zero for none. -/
  failEvery : UInt64 := 0
  verbose : Bool := false
  deriving DecidableEq, Repr

/-- What a command line asks for. -/
inductive Invocation
  | demo (o : Options)
  | version
  | help
  /-- The command line makes no sense. -/
  | refused
  deriving DecidableEq, Repr

namespace CommandLine

/-- The options that take a number. -/
inductive Setting
  | isolates | allocLimit | failEvery
  deriving DecidableEq, Repr

def Setting.ofName? : String → Option Setting
  | "isolates" => some .isolates
  | "alloc-limit" => some .allocLimit
  | "fail-every" => some .failEvery
  | _ => none

def Setting.store (s : Setting) (n : UInt64) (o : Options) : Options :=
  match s with
  | .isolates => { o with isolates := n }
  | .allocLimit => { o with allocLimit := n }
  | .failEvery => { o with failEvery := n }

/-- A 64-bit number in decimal digits, with an optional plus sign. -/
def number? (s : String) : Option UInt64 :=
  let digits := match s.toList with
    | '+' :: rest => rest
    | all => all
  if digits.isEmpty || !digits.all Char.isDigit then none
  else
    let n := digits.foldl (fun n c => 10 * n + (c.toNat - '0'.toNat)) 0
    if n < UInt64.size then some (UInt64.ofNat n) else none

/-- What has been read so far. -/
structure Reading where
  options : Options := {}
  /-- Options with a number that have been given. -/
  given : List Setting := []
  deriving DecidableEq, Repr

/-- Give an option its number; it must not have one already. -/
def Reading.set? (r : Reading) (s : Setting) (text : String) : Option Reading :=
  if r.given.contains s then none
  else (number? text).map fun n => ⟨s.store n r.options, s :: r.given⟩

/-- Switch the flag on; it must not be on already. -/
def Reading.verbose? (r : Reading) : Option Reading :=
  if r.options.verbose then none else some { r with options := { r.options with verbose := true } }

/-- The name of a long option and the text after the first equals sign, if there is one. -/
def splitLong (s : List Char) : String × Option String :=
  let name := s.takeWhile (· != '=')
  match s.dropWhile (· != '=') with
  | [] => (String.ofList name, none)
  | _ :: value => (String.ofList name, some (String.ofList value))

/-- The argument can be the value of the option before it. -/
def isPlain (arg : String) : Bool :=
  match arg.toList with
  | ['-'] => true
  | '-' :: _ => false
  | _ => true

/-- Several one-letter flags behind one dash: go on reading, or stop. -/
def flags (r : Reading) : List Char → Reading ⊕ Invocation
  | [] => .inl r
  | 'v' :: rest =>
      match r.verbose? with
      | some r => flags r rest
      | none => .inr .refused
  | 'V' :: _ => .inr .version
  | 'h' :: _ => .inr .help
  | _ => .inr .refused

/-- Read the arguments that are left. -/
def readFrom (r : Reading) : List String → Invocation
  | [] => .demo r.options
  | arg :: rest =>
      match arg.toList with
      | ['-', '-'] => if rest.isEmpty then .demo r.options else .refused
      | '-' :: '-' :: long =>
          match splitLong long with
          | ("verbose", none) =>
              match r.verbose? with
              | some r => readFrom r rest
              | none => .refused
          | ("version", none) => .version
          | ("help", none) => .help
          | (name, some text) =>
              match (Setting.ofName? name).bind (r.set? · text) with
              | some r => readFrom r rest
              | none => .refused
          | (name, none) =>
              match Setting.ofName? name, rest with
              | some s, value :: rest =>
                  if isPlain value then
                    match r.set? s value with
                    | some r => readFrom r rest
                    | none => .refused
                  else .refused
              | _, _ => .refused
      | '-' :: c :: short =>
          match flags r (c :: short) with
          | .inl r => readFrom r rest
          | .inr i => i
      | _ => .refused

/-- What the arguments ask for. -/
def read (args : List String) : Invocation := readFrom {} args

end CommandLine

end ScriptCore
