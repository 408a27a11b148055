import Sima.Rtl.Strncpy

/-!
# The input line of the shell

The shell keeps its command lines in an array of rows, each a string of at most a hundred
characters. One row is the line being typed; the others are the commands before it. Keys
edit the active row in place: characters behind the cursor are moved by overlapping
copies, and a former command is copied over the active row.

The rows lie one behind the other in memory, so that a copy that runs over its row hits
the next one. The copies are those of the generic memory library, with the pointers they
are called with.
-/

namespace Sima.Bsp

open Lib
open Function (update)

def shellCmdMaxLen : Nat := 100

def maxBufferedCmds : Nat := 8

/-- A row has room for the zero at its end. -/
def rowSize : Nat := shellCmdMaxLen + 1

/-! ## The memory library -/

def memcpy (m : Memory) (d s slen : Nat) : Memory := m.copyUp d s slen

/-- The last byte is copied first; both pointers are to the first byte. -/
def memcpyBackwards (m : Memory) (d s slen : Nat) : Memory := m.copyDown d s slen

def memset (m : Memory) (base : Nat) (v : Byte) (n : Nat) : Memory := m.fill base v n

/-! ## The state -/

/-- `struct shell`; `mem` is `buffered_line`, row after row, and what lies behind it. -/
structure Shell where
  mem : Memory
  inputLineLen : Nat
  inputLineActive : Nat
  toSelectIndex : Nat
  cursorOffset : Nat

/-- Where the rows begin; any address but `NULL` will do. -/
def bufferedLine : Nat := 0x1000

def row (r : Nat) : Nat := bufferedLine + r * rowSize

namespace Shell

def start : Shell := ⟨fun _ => 0, 0, 0, 0, 0⟩

/-- Where the active line is. -/
def line (s : Shell) : Nat := row s.inputLineActive

/-- The characters that have been typed. -/
def typed (s : Shell) : List Byte :=
  (List.range s.inputLineLen).map fun i => s.mem (s.line + i)

def setByte (s : Shell) (a : Nat) (c : Byte) : Shell :=
  { s with mem := update s.mem a c }

/-- `strcmp` of two rows. -/
def rowsDiffer (s : Shell) (r r' : Nat) : Bool :=
  s.mem.strDiffer (row r) (row r') (maxBufferedCmds * rowSize)

end Shell

/-! ## Completion -/

/-- `shell_cmd_matches_prefix`. -/
def cmdMatchesPrefix (pre cmd : List Byte) : Bool :=
  decide (pre.length ≤ min cmd.length shellCmdMaxLen) && cmd.take pre.length == pre

def commonPrefixLen : List Byte → List Byte → Nat → Nat
  | x :: a, y :: b, n + 1 => if x = y then commonPrefixLen a b n + 1 else 0
  | _, _, _ => 0

structure Matches where
  count : Nat
  firstMatch : List Byte
  commonLen : Nat

def findCmdMatches (cmds : List (List Byte)) (pre : List Byte) : Matches :=
  cmds.foldl (fun r cmd =>
    if cmdMatchesPrefix pre cmd then
      if r.count = 0 then ⟨1, cmd, min cmd.length shellCmdMaxLen⟩
      else ⟨r.count + 1, r.firstMatch, commonPrefixLen r.firstMatch cmd r.commonLen⟩
    else r) ⟨0, [], 0⟩

/-- The command that a line consists of so far: no separator may follow it. -/
def commandTail (line : List Byte) : Option (List Byte) :=
  let token := line.dropWhile (· == 32)
  if token.any fun c => c == 32 || c == 44 then none else some token

namespace Shell

def appendLoop : List Byte → Shell → Shell
  | [], s => s
  | c :: cs, s =>
    if s.inputLineLen < shellCmdMaxLen then
      appendLoop cs { s.setByte (s.line + s.inputLineLen) c with
        inputLineLen := s.inputLineLen + 1
        cursorOffset := s.cursorOffset + 1 }
    else s

section

variable (s : Shell)

def shellAppendCompletion (text : List Byte) : Shell :=
  let s := s.appendLoop text
  s.setByte (s.line + s.inputLineLen) 0

def shellHandleTabKey (cmds : List (List Byte)) : Shell :=
  if s.cursorOffset ≠ s.inputLineLen then s
  else
    match commandTail s.typed with
    | none => s
    | some token =>
      if token.length = 0 then s
      else
        let r := findCmdMatches cmds token
        if r.count = 0 then s
        else if r.count = 1 then
          let firstLen := min r.firstMatch.length shellCmdMaxLen
          let s := if firstLen > token.length then
              s.shellAppendCompletion ((r.firstMatch.take firstLen).drop token.length)
            else s
          if s.inputLineLen < shellCmdMaxLen then s.shellAppendCompletion [32] else s
        else if r.commonLen > token.length then
          s.shellAppendCompletion ((r.firstMatch.take r.commonLen).drop token.length)
        else s

/-! ## Keys -/

def handleDeleteKey : Shell :=
  if s.cursorOffset < s.inputLineLen then
    let delta := s.inputLineLen - s.cursorOffset - 1
    let mem := memcpy s.mem (s.line + s.cursorOffset) (s.line + s.cursorOffset + 1) delta
    { s with
      mem := update mem (s.line + s.inputLineLen - 1) 0
      inputLineLen := s.inputLineLen - 1 }
  else s

def handleBackspaceKey : Shell :=
  if s.cursorOffset > 0 then
    let mem :=
      if s.cursorOffset < s.inputLineLen then
        memcpy s.mem (s.line + s.cursorOffset - 1) (s.line + s.cursorOffset)
          (s.inputLineLen - s.cursorOffset)
      else s.mem
    { s with
      mem := update mem (s.line + s.inputLineLen - 1) 0
      inputLineLen := s.inputLineLen - 1
      cursorOffset := s.cursorOffset - 1 }
  else s

def handleInputChar (ch : Byte) : Shell :=
  let delta := s.inputLineLen - s.cursorOffset
  let mem :=
    if delta > 0 then
      memcpyBackwards s.mem (s.line + s.inputLineLen) (s.line + s.inputLineLen - 1) delta
    else s.mem
  { s with
    mem := update mem (s.line + s.cursorOffset) ch
    inputLineLen := s.inputLineLen + 1
    cursorOffset := s.cursorOffset + 1 }

/-- `current_select`: the row that an up or down key turns to. -/
def currentSelect (up : Bool) : Nat :=
  if up then
    let toSelect := if s.toSelectIndex = 0 then maxBufferedCmds - 1 else s.toSelectIndex - 1
    if s.mem (row toSelect) ≠ 0 then toSelect else s.toSelectIndex
  else if s.toSelectIndex ≠ s.inputLineActive then (s.toSelectIndex + 1) % maxBufferedCmds
  else s.toSelectIndex

def selectRow (current : Nat) : Shell :=
  if current ≠ s.inputLineActive then { s with toSelectIndex := current } else s

def recallRow (current : Nat) : Shell :=
  if s.rowsDiffer current s.inputLineActive then
    let len := s.mem.strnlen (row current) shellCmdMaxLen
    { s with
      mem := (Rtl.memcpyS s.mem s.line shellCmdMaxLen (row current) (len + 1)).mem
      inputLineLen := len
      cursorOffset := len }
  else s

def handleUpdownKey (up : Bool) : Shell :=
  let current := s.currentSelect up
  (s.selectRow current).recallRow current

end

end Shell

inductive FunctionKey where
  | delete
  | up
  | down
  | right
  | left
  | ends
  | home
  /-- Any other sequence. -/
  | none
  deriving DecidableEq

/-- A byte, or the escape character with the bytes that follow it. -/
inductive Key where
  | byte (ch : Byte)
  | escape (key : FunctionKey)
  deriving DecidableEq

namespace Shell

def shellHandleSpecialChar (s : Shell) : FunctionKey → Shell
  | .delete => s.handleDeleteKey
  | .up => s.handleUpdownKey true
  | .down => s.handleUpdownKey false
  | .right =>
    if s.cursorOffset < s.inputLineLen then { s with cursorOffset := s.cursorOffset + 1 }
    else s
  | .left =>
    if s.cursorOffset > 0 then { s with cursorOffset := s.cursorOffset - 1 } else s
  | .ends =>
    if s.cursorOffset < s.inputLineLen then { s with cursorOffset := s.inputLineLen } else s
  | .home => if s.cursorOffset > 0 then { s with cursorOffset := 0 } else s
  | .none => s

def finish (s : Shell) : Shell × Bool := ({ s with inputLineLen := 0, cursorOffset := 0 }, true)

/-- `shell_input_line`; the flag says that the line is done. A line that is full is done with
the next byte, and that may be the first one of an escape sequence. -/
def shellInputLine (s : Shell) (cmds : List (List Byte)) : Key → Shell × Bool
  | .byte ch =>
    if ch = 0x08 ∨ ch = 0x7f then (s.handleBackspaceKey, false)
    else if ch = 0x09 then (s.shellHandleTabKey cmds, false)
    else if ch = 0x0d then s.finish
    else if ch = 0x0a then (s, false)
    else if s.inputLineLen < shellCmdMaxLen then
      (if 32 ≤ ch ∧ ch ≤ 126 then s.handleInputChar ch else s, false)
    else s.finish
  | .escape key =>
    if s.inputLineLen < shellCmdMaxLen then (s.shellHandleSpecialChar key, false)
    else s.finish

/-- `shell_process`, without the command itself. -/
def shellProcess (s : Shell) : Shell :=
  let former := (s.inputLineActive + maxBufferedCmds - 1) % maxBufferedCmds
  let active :=
    if s.mem.strnlen s.line shellCmdMaxLen > 0 ∧ s.rowsDiffer s.inputLineActive former then
      (s.inputLineActive + 1) % maxBufferedCmds
    else s.inputLineActive
  { s with
    mem := memset s.mem (row active) 0 rowSize
    inputLineActive := active
    toSelectIndex := active }

/-- What `shell_kick` does with a key. -/
def kick (cmds : List (List Byte)) (key : Key) (s : Shell) : Shell :=
  match s.shellInputLine cmds key with
  | (s, false) => s
  | (s, true) => s.shellProcess

end Shell

end Sima.Bsp
