import SceneTree.Json.Symbol
import SceneTree.Json.Fault

/-! Strings as they are written. A `\u` escape gives a 16-bit unit, and units are paired only when
the text of the string is wanted. -/
namespace SceneTree.Json

inductive Piece where
  | char (c : Char)
  | stray
  | unit (u : Nat)
deriving DecidableEq

/- `textEnd` also stands for an escape that the end of the text cuts short. -/
inductive Quoted.Ending where
  | closed | textEnd | control | unknownEscape | badHex
deriving DecidableEq

structure Quoted where
  pieces : List Piece
  ending : Quoted.Ending
deriving DecidableEq

namespace Quoted

def Ending.skim : Ending → Except Fault Unit
  | .closed => .ok ()
  | .textEnd => .error .endInString
  | .control => .error .controlCharacter
  | .unknownEscape => .error .malformedEscape
  | .badHex => .error .malformedEscape

def isHigh (u : Nat) : Bool := 0xD800 ≤ u ∧ u < 0xDC00

def isLow (u : Nat) : Bool := 0xDC00 ≤ u ∧ u < 0xE000

def pair (high low : Nat) : Char := Char.ofNat (0x10000 + (high - 0xD800) * 0x400 + (low - 0xDC00))

/- What is wrong when a string ends after a high surrogate. Only another escape could have
   completed it, so any other ending is an unfinished pair. -/
def Ending.afterHigh : Ending → Fault
  | .textEnd => .endInString
  | .badHex => .malformedEscape
  | .closed | .control | .unknownEscape => .unfinishedSurrogate

/- `done` is reversed; `clean` says that no stray byte was met. -/
def textFrom (ending : Ending) (done : List Char) (clean : Bool) : List Piece → Except Fault String
  | [] => do
    ending.skim
    if clean then return String.ofList done.reverse else throw .malformedUtf8
  | .char c :: ps => textFrom ending (c :: done) clean ps
  | .stray :: ps => textFrom ending done false ps
  | .unit u :: ps =>
    if isLow u then .error .unpairedSurrogate
    else if isHigh u then
      match ps with
      | [] => .error ending.afterHigh
      | .unit v :: ps =>
        if isLow v then textFrom ending (pair u v :: done) clean ps else .error .unpairedSurrogate
      | _ :: _ => .error .unfinishedSurrogate
    else textFrom ending (Char.ofNat u :: done) clean ps

/-- The text of a string, or the first thing that is wrong with it. -/
def text (q : Quoted) : Except Fault String := textFrom q.ending [] true q.pieces

/-- The faults that count where the text is not wanted. -/
def skim (q : Quoted) : Except Fault Unit := q.ending.skim

end Quoted
end SceneTree.Json
