import Scriptlet.Decimal.Integer
import Scriptlet.Text.Quoted

/-!
# Flags

The arguments of a command begin with its **flags**. A flag is a name after one hyphen or two,
and may bring its value along after an equals sign. A switch needs no value; every other flag
takes the next argument when it brings none. Flags end at the first argument that is none, or
after `--`.

What flags set is a record of options, and each flag is a way to change that record.
-/

namespace Scriptlet

/-- A flag that sets options of type `σ`. -/
inductive Flag (σ : Type) where
  /-- A flag that is on or off. -/
  | switch (set : Bool → σ → σ)
  /-- A flag with a whole number. -/
  | number (set : Int → σ → σ)
  /-- A flag with a text. -/
  | text (set : Bytes → σ → σ)

/-- What can be wrong with flags. -/
inductive FlagError where
  /-- An argument looks like a flag and is none. -/
  | malformed (arg : Bytes)
  /-- Help was asked for. -/
  | help
  /-- There is no such flag. -/
  | unknown (name : Bytes)
  /-- A switch is neither on nor off. -/
  | notSwitch (name value : Bytes)
  /-- A flag has no value. -/
  | noValue (name : Bytes)
  /-- A value is not a number. -/
  | notNumber (name value : Bytes) (e : IntegerError)
  deriving DecidableEq, Repr

/-- The wording of a flag error. -/
def FlagError.message : FlagError → Bytes
  | malformed arg => Bytes.ofString "bad flag syntax: " ++ arg
  | help => Bytes.ofString "flag: help requested"
  | unknown name => Bytes.ofString "flag provided but not defined: -" ++ name
  | notSwitch name value =>
    Bytes.ofString "invalid boolean value " ++ Bytes.quoted value ++ Bytes.ofString " for -" ++
      name ++ Bytes.ofString ": parse error"
  | noValue name => Bytes.ofString "flag needs an argument: -" ++ name
  | notNumber name value e =>
    Bytes.ofString "invalid value " ++ Bytes.quoted value ++ Bytes.ofString " for flag -" ++ name ++
      Bytes.ofString (match e with
        | .malformed => ": parse error"
        | .outOfRange => ": value out of range")

namespace Flag

/-! ### Arguments -/

/-- What an argument can be. -/
inductive Argument where
  /-- An argument that is no flag. -/
  | plain
  /-- The end of the flags. -/
  | divider
  /-- Hyphens with nothing sensible after them. -/
  | malformed
  /-- A flag, with the value it brings along. -/
  | flag (name : Bytes) (value : Option Bytes)

/-- The name and the value of a flag without its hyphens. -/
def named (s : Bytes) : Argument :=
  match s with
  | [] => .malformed
  | b :: r =>
    if b = Bytes.hyphen ∨ b = 0x3d then .malformed
    else match Bytes.cut? 0x3d r with
      | some (name, value) => .flag (b :: name) (some value)
      | none => .flag s none

/-- What an argument is. -/
def Argument.read (arg : Bytes) : Argument :=
  match arg with
  | [] | [_] => .plain
  | a :: b :: r =>
    if a = Bytes.hyphen then
      if b = Bytes.hyphen then
        if r.isEmpty then .divider else named r
      else named (b :: r)
    else .plain

/-! ### Values -/

/-- The truth values that a switch can be given. -/
def readSwitch? (value : Bytes) : Option Bool :=
  if ["1", "t", "T", "TRUE", "true", "True"].any (Bytes.ofString · == value) then some true
  else if ["0", "f", "F", "FALSE", "false", "False"].any (Bytes.ofString · == value) then
    some false
  else none

variable {σ : Type}

/-- Options after a flag with a value. -/
def assign (f : Flag σ) (name value : Bytes) (options : σ) : Except FlagError σ :=
  match f with
  | switch set =>
    match readSwitch? value with
    | some b => .ok (set b options)
    | none => .error (.notSwitch name value)
  | number set =>
    match Integer.readLiteral value with
    | .ok n => .ok (set n options)
    | .error e => .error (.notNumber name value e)
  | text set => .ok (set value options)

/-- The flag of a name. -/
def find? (flags : List (String × Flag σ)) (name : Bytes) : Option (Flag σ) :=
  (flags.find? fun f => Bytes.ofString f.1 == name).map Prod.snd

/-- The error for a flag that does not exist; everyone may ask for help. -/
def missing (name : Bytes) : FlagError :=
  if name = Bytes.ofString "help" ∨ name = Bytes.ofString "h" then .help else .unknown name

/-- **Reads the flags that arguments begin with**: the options they make of the given ones, and the
arguments after them. -/
def readAll (flags : List (String × Flag σ)) :
    (options : σ) → (args : List Bytes) → Except FlagError (σ × List Bytes)
  | options, [] => .ok (options, [])
  | options, arg :: args =>
    match Argument.read arg with
    | .plain => .ok (options, arg :: args)
    | .divider => .ok (options, args)
    | .malformed => .error (.malformed arg)
    | .flag name value =>
      match find? flags name, value with
      | none, _ => .error (missing name)
      | some f, some v =>
        match f.assign name v options with
        | .error e => .error e
        | .ok options => readAll flags options args
      | some (.switch set), none => readAll flags (set true options) args
      | some f, none =>
        match args with
        | [] => .error (.noValue name)
        | v :: args =>
          match f.assign name v options with
          | .error e => .error e
          | .ok options => readAll flags options args

end Flag

end Scriptlet
