import ModuleSource.Source.Basic

/-!
Decoders. A decoder asks for tokens one after the other and looks, at chosen places, whether the run
was asked to stop; it sees nothing else of its source. So what holds of every decoder holds of every
file layout written as one.
-/

namespace ModuleSource

/-- Failure to decode a file: a read outside any statement, a read inside a record of a statement
block, or a stop. -/
inductive DecodeFailure where
  | read (cause : ReadFailure)
  | malformedStatement (record : Nat) (cause : ReadFailure)
  | cancelled
deriving DecidableEq

namespace DecodeFailure

def message : DecodeFailure → String
  | read cause => cause.message
  | malformedStatement record cause =>
    s!"malformed statement in record {record}: {cause.message}"
  | cancelled => "decompilation cancelled"

/-- The messages of what lies behind the failure, outermost first. -/
def causes : DecodeFailure → List String
  | read cause => cause.message :: cause.causes
  | malformedStatement _ cause => cause.message :: cause.causes
  | cancelled => []

def line? : DecodeFailure → Option Nat
  | read cause => cause.line?
  | malformedStatement _ cause => cause.line?
  | cancelled => none

end DecodeFailure

/-- Where a token is read: in a field of the layout, or in a record of a statement block. -/
inductive Site where
  | field
  | record (index : Nat)
deriving DecidableEq

def Site.error : Site → ReadFailure → DecodeFailure
  | field, cause => .read cause
  | record index, cause => .malformedStatement index cause

inductive Decoder (α : Type) : Type where
  | done (value : α)
  | look (next : Decoder α)
  | read (site : Site) (kind : TokenForm) (next : kind.Value → Decoder α)

/-- Whether a stop is asked for, as seen by look number `looks` of a file of which `lines` physical
lines were fetched. -/
abbrev StopSignal := (looks lines : Nat) → Bool

namespace StopSignal

def never : StopSignal := fun _ _ => false

def always : StopSignal := fun _ _ => true

/-- A stop asked for at the moment when the given physical line is fetched. -/
def atLine (number : Nat) : StopSignal := fun _ lines => number ≤ lines

end StopSignal

namespace Decoder

variable {α β : Type}

def bind (d : Decoder α) (f : α → Decoder β) : Decoder β :=
  match d with
  | done a => f a
  | look next => look (next.bind f)
  | read site kind next => read site kind fun value => (next value).bind f

instance : Monad Decoder where
  pure := done
  bind := bind

/-- Decodes from a source, `looks` looks having been made before. A failed read and a stop leave the
source where they met it. -/
def run (signal : StopSignal) :
    Decoder α → (looks : Nat) → Source → Except DecodeFailure α × Source
  | done a, _, s => (.ok a, s)
  | look next, looks, s =>
    if signal looks s.fetched then (.error .cancelled, s) else next.run signal (looks + 1) s
  | read site kind next, looks, s =>
    match s.read kind with
    | (.ok value, s) => (next value).run signal looks s
    | (.error e, s) => (.error (site.error e), s)

/-- Decodes without looking for a stop, and reports a failed read as it is. -/
def scan : Decoder α → Source → Except ReadFailure α × Source
  | done a, s => (.ok a, s)
  | look next, s => next.scan s
  | read _ kind next, s =>
    match s.read kind with
    | (.ok value, s) => (next value).scan s
    | (.error e, s) => (.error e, s)

/-- The same decoder with every read inside the given record. -/
def inRecord (index : Nat) : Decoder α → Decoder α
  | done a => done a
  | look next => look (next.inRecord index)
  | read _ kind next => read (.record index) kind fun value => (next value).inRecord index

def token (kind : TokenForm) : Decoder kind.Value := read .field kind done

def word : Decoder String := token .word

def int : Decoder Int := token .int

def word32 : Decoder UInt32 := token .word32

def word64 : Decoder UInt64 := token .word64

def float : Decoder Number.Binary64 := token .float

/-- The number of entries that follow; a negative one stands for none. -/
def count : Decoder Nat := do
  let n ← int
  return n.toNat

/-- The values of `n` decoders, from index `i` on. -/
def collectFrom (f : Nat → Decoder α) (i : Nat) : (n : Nat) → (found : List α) → Decoder (List α)
  | 0, found => done found.reverse
  | n + 1, found => (f i).bind fun a => collectFrom f (i + 1) n (a :: found)

/-- The values of `n` decoders, one after the other. -/
def collect (f : Nat → Decoder α) (n : Nat) : Decoder (List α) := collectFrom f 0 n []

def times (n : Nat) (d : Decoder α) : Decoder (List α) := collect (fun _ => d) n

/-- A count, and that many entries. -/
def listOf (d : Decoder α) : Decoder (List α) := do
  let n ← count
  times n d

/-- A count, and that many records, with a look before each. -/
def records (d : Decoder α) : Decoder (List α) := listOf (look d)

end Decoder

end ModuleSource
