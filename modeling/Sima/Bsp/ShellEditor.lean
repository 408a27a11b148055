import Mathlib.Data.List.TakeDrop
import Sima.Bsp.ShellLine
import Sima.Lib.Trace

/-!
# The line editor that the shell is

What a key is to do can be said without memory. An editor has the lines as lists and a
cursor; a character is inserted at the cursor, a deletion takes the one before it or the
one at it, and a former command takes the place of the line.

The shell holds these lists as strings in its rows, and every key keeps it so — as long
as the copies are asked for what they can do. Three of them are not. To insert a
character, the tail of the line is moved up by a copy that wants the two first addresses
and is given the two last ones: only a tail of one character is moved. The copy that
recalls a command has one byte too little room for a full line. And since insertion
relies on the zeros that a cleared row has behind the line, the rest of an earlier, longer
line comes back after a shorter one has been recalled.

So the lists and the memory agree along every run in which no key asks for that, and in
which no function key is pressed on a full line, which is taken for the end of the line.
-/

namespace Sima.Bsp

open Lib Lib.Memory
open Function (update update_eq_self update_idem update_of_ne update_self)
open Shell

/-! ## The editor -/

structure Editor where
  lines : Nat → List Byte
  active : Nat
  select : Nat
  cursor : Nat

/-- What `shell_handle_tab_key` appends, as far as there is room. -/
def completion (cmds : List (List Byte)) (line : List Byte) : List Byte :=
  match commandTail line with
  | none => []
  | some token =>
    if token.length = 0 then []
    else
      let r := findCmdMatches cmds token
      if r.count = 0 then []
      else if r.count = 1 then
        (r.firstMatch.take shellCmdMaxLen).drop token.length ++ [32]
      else if r.commonLen > token.length then
        (r.firstMatch.take r.commonLen).drop token.length
      else []

namespace Editor

def start : Editor := ⟨fun _ => [], 0, 0, 0⟩

section

variable (e : Editor)

def line : List Byte := e.lines e.active

def setLine (l : List Byte) (cursor : Nat) : Editor :=
  { e with lines := update e.lines e.active l, cursor := cursor }

def insert (ch : Byte) : Editor :=
  e.setLine (e.line.insertIdx e.cursor ch) (e.cursor + 1)

def backspace : Editor :=
  if 0 < e.cursor then e.setLine (e.line.eraseIdx (e.cursor - 1)) (e.cursor - 1) else e

def delete : Editor :=
  if e.cursor < e.line.length then e.setLine (e.line.eraseIdx e.cursor) e.cursor else e

/-- The line before the selected one, if there is one, or the line after it. -/
def entry (up : Bool) : Nat :=
  if up then
    let before := if e.select = 0 then maxBufferedCmds - 1 else e.select - 1
    if e.lines before ≠ [] then before else e.select
  else if e.select ≠ e.active then (e.select + 1) % maxBufferedCmds
  else e.select

def selectLine (i : Nat) : Editor :=
  if i ≠ e.active then { e with select := i } else e

def replaceBy (i : Nat) : Editor :=
  if e.lines i ≠ e.line then e.setLine (e.lines i) (e.lines i).length else e

def recallLine (up : Bool) : Editor :=
  (e.selectLine (e.entry up)).replaceBy (e.entry up)

/-- As much of the text as there is room for. -/
def append (text : List Byte) : Editor :=
  let l := e.line ++ text.take (shellCmdMaxLen - e.line.length)
  e.setLine l l.length

def complete (cmds : List (List Byte)) : Editor :=
  if e.cursor = e.line.length then e.append (completion cmds e.line) else e

/-- A line that is not empty and not the one before it is kept. -/
def submit : Editor :=
  let active :=
    if e.line ≠ [] ∧ e.line ≠ e.lines ((e.active + maxBufferedCmds - 1) % maxBufferedCmds) then
      (e.active + 1) % maxBufferedCmds
    else e.active
  { lines := update e.lines active []
    active := active
    select := active
    cursor := 0 }

def special : FunctionKey → Editor
  | .delete => e.delete
  | .up => e.recallLine true
  | .down => e.recallLine false
  | .right => { e with cursor := min (e.cursor + 1) e.line.length }
  | .left => { e with cursor := e.cursor - 1 }
  | .ends => { e with cursor := e.line.length }
  | .home => { e with cursor := 0 }
  | .none => e

end

def press (cmds : List (List Byte)) (key : Key) (e : Editor) : Editor :=
  match key with
  | .byte ch =>
    if ch = 0x08 ∨ ch = 0x7f then e.backspace
    else if ch = 0x09 then e.complete cmds
    else if ch = 0x0d then e.submit
    else if ch = 0x0a then e
    else if e.line.length < shellCmdMaxLen then
      if 32 ≤ ch ∧ ch ≤ 126 then e.insert ch else e
    else e.submit
  | .escape key => e.special key

end Editor

/-! ## The shell shows the editor -/

structure Shows (s : Shell) (e : Editor) : Prop where
  active : s.inputLineActive = e.active
  active_lt : e.active < maxBufferedCmds
  select : s.toSelectIndex = e.select
  select_lt : e.select < maxBufferedCmds
  cursor : s.cursorOffset = e.cursor
  len : s.inputLineLen = e.line.length
  cursor_le : e.cursor ≤ e.line.length
  rows : ∀ r < maxBufferedCmds, Str s.mem (row r) (e.lines r) ∧ (e.lines r).length ≤ shellCmdMaxLen

/-- Nothing is written outside the row. -/
def OnlyRow (r : Nat) (m m' : Memory) : Prop :=
  ∀ a, a < row r ∨ row r + rowSize ≤ a → m' a = m a

/-- A key has been handled. -/
structure Edited (s s' : Shell) (e' : Editor) : Prop where
  shows : Shows s' e'
  only : OnlyRow e'.active s.mem s'.mem

variable {s : Shell} {e : Editor} {cmds : List (List Byte)} {m : Memory} {i r : Nat}
  {text l : List Byte}

theorem Shows.start : Shows .start .start :=
  ⟨rfl, by decide, rfl, by decide, rfl, rfl, le_rfl, fun _ _ => ⟨.empty rfl, Nat.zero_le _⟩⟩

theorem onlyRow_refl : OnlyRow r m m := fun _ _ => rfl

theorem OnlyRow.str {r' : Nat} {m' : Memory} (h : OnlyRow r m m') (hne : r' ≠ r)
    (hlen : l.length ≤ shellCmdMaxLen) (hstr : Str m (row r') l) : Str m' (row r') l := by
  refine hstr.congr fun i hi => h _ ?_
  simp only [row, rowSize, shellCmdMaxLen] at *
  omega

namespace Shows

variable (h : Shows s e) {c : Nat}

include h

theorem line_eq : s.line = row e.active := by rw [line, h.active]

theorem str : Str s.mem s.line e.line := by
  rw [h.line_eq]
  exact (h.rows _ h.active_lt).1

theorem len_le : e.line.length ≤ shellCmdMaxLen := (h.rows _ h.active_lt).2

theorem setLine {l : List Byte} {n : Nat} (hrow : OnlyRow e.active s.mem m) (hstr : Str m s.line l)
    (hlen : l.length ≤ shellCmdMaxLen) (hn : n = l.length) (hc : c ≤ l.length) :
    Shows { s with mem := m, inputLineLen := n, cursorOffset := c } (e.setLine l c) := by
  have hline : (e.setLine l c).line = l := update_self ..
  refine ⟨h.active, h.active_lt, h.select, h.select_lt, rfl, hn.trans (by rw [hline]),
    by rw [hline]; exact hc, fun r hr => ?_⟩
  by_cases hra : r = e.active
  · subst hra
    rw [show (e.setLine l c).lines e.active = l from hline, ← h.line_eq]
    exact ⟨hstr, hlen⟩
  · rw [show (e.setLine l c).lines r = e.lines r from update_of_ne hra ..]
    exact ⟨hrow.str hra (h.rows r hr).2 (h.rows r hr).1, (h.rows r hr).2⟩

theorem setCursor (hc : c ≤ e.line.length) :
    Shows { s with cursorOffset := c } { e with cursor := c } :=
  ⟨h.active, h.active_lt, h.select, h.select_lt, rfl, h.len, hc, h.rows⟩

theorem typed_eq : s.typed = e.line := by
  refine List.ext_getElem (by rw [typed, List.length_map, List.length_range, h.len])
    fun i h₁ h₂ => ?_
  simp only [typed, List.getElem_map, List.getElem_range]
  exact h.str.get h₂

theorem rowsDiffer_iff {r r' : Nat} (hr : r < maxBufferedCmds) (hr' : r' < maxBufferedCmds) :
    s.rowsDiffer r r' = true ↔ e.lines r ≠ e.lines r' := by
  refine (h.rows r hr).1.strDiffer_iff (h.rows r' hr').1 ?_
  have := (h.rows r hr).2
  simp only [rowSize, shellCmdMaxLen] at *
  omega

omit h

end Shows

/-! ## Editing -/

variable (h : Shows s e) {n : Nat}

include h

theorem Shows.insert {ch : Byte} (hch : ch ≠ 0) (hroom : s.inputLineLen < shellCmdMaxLen)
    (htail : s.inputLineLen ≤ s.cursorOffset + 1)
    (hend : s.mem (s.line + s.inputLineLen + 1) = 0) :
    Edited s (s.handleInputChar ch) (e.insert ch) := by
  have hcur := h.cursor
  have hcle := h.cursor_le
  have hlen := h.len
  have hline := h.line_eq
  -- the one character of the tail, if there is one
  have hmoved : ∀ a, (if s.inputLineLen - s.cursorOffset > 0 then
      memcpyBackwards s.mem (s.line + s.inputLineLen) (s.line + s.inputLineLen - 1)
        (s.inputLineLen - s.cursorOffset) else s.mem) a =
      if a = s.line + s.inputLineLen ∧ s.cursorOffset < s.inputLineLen then
        s.mem (s.line + s.cursorOffset) else s.mem a := by
    intro a
    by_cases hd : s.inputLineLen - s.cursorOffset > 0
    · rw [if_pos hd, memcpyBackwards, copyDown_apply (by omega)]
      by_cases ha : a = s.line + s.inputLineLen
      · rw [if_pos (by omega), if_pos (by omega)]
        congr 1
        omega
      · rw [if_neg (by omega), if_neg (by omega)]
    · rw [if_neg hd, if_neg (by omega)]
  have hins : (s.handleInputChar ch).mem = update (if s.inputLineLen - s.cursorOffset > 0 then
        memcpyBackwards s.mem (s.line + s.inputLineLen) (s.line + s.inputLineLen - 1)
          (s.inputLineLen - s.cursorOffset) else s.mem) (s.line + s.cursorOffset) ch := rfl
  have hrow : OnlyRow e.active s.mem (s.handleInputChar ch).mem := by
    intro a ha
    simp only [rowSize] at ha
    rw [hins, update_of_ne (by omega), hmoved, if_neg (by omega)]
  refine ⟨?_, hrow⟩
  have hlist : (e.line.insertIdx e.cursor ch).length = e.line.length + 1 :=
    List.length_insertIdx_of_le_length hcle ch
  have hstr : Str (s.handleInputChar ch).mem s.line (e.line.insertIdx e.cursor ch) := by
    refine h.str.insertIdx hcle hch (fun k hk => ?_) ?_ (fun k hk hkl => ?_)
    · rw [hins, update_of_ne (by omega), hmoved, if_neg (by omega)]
    · rw [hins, hcur, update_self]
    rw [hins, update_of_ne (by omega), hmoved]
    by_cases hkc : k + 1 = s.inputLineLen
    · rw [if_pos (by omega)]
      congr 1
      omega
    -- the cursor is behind the last character: two zeros
    have hz : s.mem (s.line + e.line.length) = 0 := h.str.end_zero
    have hkz : k = e.line.length := by omega
    rw [if_neg (by omega), hkz, hz, ← hlen]
    exact hend
  have hshow := h.setLine hrow hstr (by rw [hlist]; omega)
    (show s.inputLineLen + 1 = _ by rw [hlist, hlen]) (show e.cursor + 1 ≤ _ by omega)
  rw [← hcur] at hshow
  rw [Editor.insert, ← hcur]
  exact hshow

/-- A character is taken out: what follows it moves down, and the last place is cleared. -/
theorem Shows.erase (hi : i < e.line.length)
    (hm : ∀ a, m a = if s.line + i ≤ a ∧ a < s.line + e.line.length - 1 then s.mem (a + 1)
      else if a = s.line + e.line.length - 1 then 0 else s.mem a) (hn : n = e.line.length - 1) :
    Edited s { s with mem := m, inputLineLen := n, cursorOffset := i }
      (e.setLine (e.line.eraseIdx i) i) := by
  have hlen := List.length_eraseIdx_of_lt hi
  have hle := h.len_le
  have hrow : OnlyRow e.active s.mem m := by
    intro a ha
    rw [← h.line_eq] at ha
    simp only [rowSize] at ha
    rw [hm, if_neg (by omega), if_neg (by omega)]
  refine ⟨h.setLine hrow ?_ (by omega) (by omega) (by omega), hrow⟩
  refine h.str.eraseIdx hi (fun k hk => ?_) (fun k hk hkl => ?_)
  · rw [hm, if_neg (by omega), if_neg (by omega)]
  rw [hm]
  by_cases hlast : k = e.line.length - 1
  · rw [if_neg (by omega), if_pos (by omega), show k + 1 = e.line.length by omega, h.str.end_zero]
  · rw [if_pos (by omega), add_assoc]

theorem Shows.delete : Edited s s.handleDeleteKey e.delete := by
  have hcur := h.cursor
  have hlen := h.len
  rw [handleDeleteKey, Editor.delete]
  by_cases hlt : s.cursorOffset < s.inputLineLen
  · rw [if_pos hlt, if_pos (by omega), ← hcur]
    refine h.erase (by omega) (fun a => ?_) (by omega)
    rw [← hlen]
    by_cases ha : a = s.line + s.inputLineLen - 1
    · rw [ha, update_self, if_neg (by omega), if_pos rfl]
    rw [update_of_ne ha, memcpy, copyUp_apply (by omega), if_neg ha]
    by_cases hin : s.line + s.cursorOffset ≤ a ∧ a < s.line + s.inputLineLen - 1
    · rw [if_pos hin, if_pos (by omega)]
      congr 1
      omega
    · rw [if_neg hin, if_neg (by omega)]
  · rw [if_neg hlt, if_neg (by omega)]
    exact ⟨h, onlyRow_refl⟩

theorem Shows.backspace : Edited s s.handleBackspaceKey e.backspace := by
  have hcur := h.cursor
  have hcle := h.cursor_le
  have hlen := h.len
  rw [handleBackspaceKey, Editor.backspace]
  by_cases hlt : s.cursorOffset > 0
  · have hpos : 0 < e.cursor := by omega
    rw [if_pos hlt, if_pos hpos, ← hcur]
    have hi : s.cursorOffset - 1 < e.line.length := by omega
    refine h.erase hi (fun a => ?_) (by omega)
    rw [← hlen]
    by_cases ha : a = s.line + s.inputLineLen - 1
    · rw [ha, update_self, if_neg (by omega), if_pos rfl]
    rw [update_of_ne ha, if_neg ha]
    by_cases hd : s.cursorOffset < s.inputLineLen
    · rw [if_pos hd, memcpy, copyUp_apply (by omega)]
      by_cases hin : s.line + (s.cursorOffset - 1) ≤ a ∧ a < s.line + s.inputLineLen - 1
      · rw [if_pos hin, if_pos (by omega)]
        congr 1
        omega
      · rw [if_neg hin, if_neg (by omega)]
    · rw [if_neg hd, if_neg (by omega)]
  · rw [if_neg hlt, if_neg (by omega)]
    exact ⟨h, onlyRow_refl⟩

/-! ## Recalling a command -/

theorem Shows.entry_eq (up : Bool) : s.currentSelect up = e.entry up := by
  have hlt := h.select_lt
  rw [currentSelect, Editor.entry, h.select, h.active]
  cases up with
  | false => rfl
  | true =>
    have hb : (if e.select = 0 then maxBufferedCmds - 1 else e.select - 1) < maxBufferedCmds := by
      split <;> omega
    simp only [if_true]
    exact if_congr (not_congr (h.rows _ hb).1.head_iff) rfl rfl

theorem Shows.entry_lt (up : Bool) : e.entry up < maxBufferedCmds := by
  have hlt := h.select_lt
  rw [Editor.entry]
  simp only [maxBufferedCmds] at *
  repeat' split
  all_goals omega

theorem Shows.selectRow (hi : i < maxBufferedCmds) : Shows (s.selectRow i) (e.selectLine i) := by
  by_cases hi' : i ≠ e.active
  · rw [Shell.selectRow, Editor.selectLine, if_pos (h.active ▸ hi'), if_pos hi']
    exact ⟨h.active, h.active_lt, rfl, hi, h.cursor, h.len, h.cursor_le, h.rows⟩
  · rw [Shell.selectRow, Editor.selectLine, if_neg (h.active ▸ hi'), if_neg hi']
    exact h

theorem Shows.recallRow (hi : i < maxBufferedCmds)
    (hfit : s.mem.strnlen (row i) shellCmdMaxLen < shellCmdMaxLen) :
    Edited s (s.recallRow i) (e.replaceBy i) := by
  have hstr := (h.rows i hi).1
  have hle := (h.rows i hi).2
  have hline := h.line_eq
  have hlen : s.mem.strnlen (row i) shellCmdMaxLen = (e.lines i).length := by
    rw [hstr.strnlen_eq, min_eq_left hle]
  have hdiff : s.rowsDiffer i s.inputLineActive = true ↔ e.lines i ≠ e.line := by
    rw [h.active]
    exact h.rowsDiffer_iff hi h.active_lt
  rw [Shell.recallRow, Editor.replaceBy, hlen]
  by_cases hne : e.lines i ≠ e.line
  · rw [if_pos (hdiff.mpr hne), if_pos hne]
    have hother : i ≠ e.active := fun hc => hne (by rw [hc]; rfl)
    have hcopy : ∀ a,
        (Rtl.memcpyS s.mem s.line shellCmdMaxLen (row i) ((e.lines i).length + 1)).mem a =
        if s.line ≤ a ∧ a < s.line + ((e.lines i).length + 1) then
          s.mem (row i + (a - s.line)) else s.mem a := by
      intro a
      rw [hlen] at hfit
      have hfar : s.line > row i + ((e.lines i).length + 1) ∨ row i > s.line + shellCmdMaxLen := by
        simp only [row, rowSize, shellCmdMaxLen] at *
        omega
      have hnull : ∀ r, row r ≠ 0 := fun r => by
        rw [row, bufferedLine]
        omega
      rw [Rtl.memcpyS, if_pos ⟨hline ▸ hnull _, hnull i, hfit, hfar⟩]
      exact copyUp_apply (by omega)
    have hrow : OnlyRow e.active s.mem
        (Rtl.memcpyS s.mem s.line shellCmdMaxLen (row i) ((e.lines i).length + 1)).mem := by
      intro a ha
      simp only [rowSize] at ha
      rw [hcopy, if_neg (by omega)]
    refine ⟨h.setLine hrow (hstr.congr fun k hk => ?_) hle rfl le_rfl, hrow⟩
    rw [hcopy, if_pos (by omega), Nat.add_sub_cancel_left]
  · rw [if_neg fun hd => hne (hdiff.mp hd), if_neg hne]
    exact ⟨h, onlyRow_refl⟩

theorem Shows.recallLine {up : Bool}
    (hfit : s.mem.strnlen (row (s.currentSelect up)) shellCmdMaxLen < shellCmdMaxLen) :
    Edited s (s.handleUpdownKey up) (e.recallLine up) := by
  have hi := h.entry_lt up
  have hs : (s.selectRow (e.entry up)).mem = s.mem := by
    rw [Shell.selectRow]
    split <;> rfl
  rw [h.entry_eq up, ← hs] at hfit
  obtain ⟨hshow, honly⟩ := (h.selectRow hi).recallRow hi hfit
  rw [hs] at honly
  rw [handleUpdownKey, h.entry_eq up]
  exact ⟨hshow, honly⟩

omit h

/-! ## Completion -/

theorem findCmdMatches_ne_zero (hcmds : ∀ cmd ∈ cmds, ∀ c ∈ cmd, c ≠ 0) (pre : List Byte) :
    ∀ c ∈ (findCmdMatches cmds pre).firstMatch, c ≠ 0 := by
  refine List.foldlRecOn cmds _ (motive := fun r : Matches => ∀ c ∈ r.firstMatch, c ≠ 0)
    (fun c hc => absurd hc List.not_mem_nil) fun r hr cmd hcmd => ?_
  split
  · split
    · exact hcmds cmd hcmd
    · exact hr
  · exact hr

theorem appendLoop_spec (hlen : s.inputLineLen = l.length)
    (hbytes : ∀ i < l.length, s.mem (s.line + i) = l.getD i 0) :
    ∃ m t, t = text.take (shellCmdMaxLen - l.length) ∧
      s.appendLoop text = { s with
        mem := m
        inputLineLen := l.length + t.length
        cursorOffset := s.cursorOffset + t.length } ∧
      (∀ i < (l ++ t).length, m (s.line + i) = (l ++ t).getD i 0) ∧
      ∀ a, a < s.line + l.length ∨ s.line + l.length + t.length ≤ a → m a = s.mem a := by
  induction text generalizing s l with
  | nil =>
    refine ⟨s.mem, [], List.take_nil.symm, ?_, ?_, fun a _ => rfl⟩
    · rw [appendLoop, List.length_nil, add_zero, add_zero, ← hlen]
    · rw [List.append_nil]
      exact hbytes
  | cons c text ih =>
    rw [appendLoop]
    by_cases hroom : s.inputLineLen < shellCmdMaxLen
    · rw [if_pos hroom]
      have hone : ∀ i < (l ++ [c]).length, update s.mem (s.line + s.inputLineLen) c
          (s.line + i) = (l ++ [c]).getD i 0 := by
        intro i hi
        rw [List.length_append, List.length_singleton] at hi
        by_cases hil : i = l.length
        · rw [hil, hlen, update_self, List.getD_append_right _ _ _ _ le_rfl, Nat.sub_self]
          rfl
        · rw [update_of_ne (by omega), List.getD_append _ _ _ _ (by omega), hbytes i (by omega)]
      obtain ⟨m, t, ht, happ, hm, hsame⟩ := ih
        (s := { s.setByte (s.line + s.inputLineLen) c with
          inputLineLen := s.inputLineLen + 1
          cursorOffset := s.cursorOffset + 1 })
        (by rw [List.length_append, List.length_singleton, ← hlen]) hone
      rw [List.length_append, List.length_singleton] at ht
      refine ⟨m, c :: t, ?_, ?_, ?_, fun a ha => ?_⟩
      · rw [show shellCmdMaxLen - l.length = shellCmdMaxLen - (l.length + 1) + 1 by omega,
          List.take_succ_cons, ht]
      · rw [happ, List.length_append, List.length_singleton, List.length_cons]
        simp only [setByte, add_assoc, add_comm 1]
      · rw [List.append_assoc] at hm
        exact hm
      · rw [List.length_cons] at ha
        rw [hsame a (by
          rw [List.length_append, List.length_singleton]
          simp only [line, setByte] at ha ⊢
          omega)]
        exact update_of_ne (by omega) _ _
    · rw [if_neg hroom]
      refine ⟨s.mem, [], ?_, ?_, ?_, fun a _ => rfl⟩
      · rw [show shellCmdMaxLen - l.length = 0 by omega, List.take_zero]
      · rw [List.length_nil, add_zero, add_zero, ← hlen]
      · rw [List.append_nil]
        exact hbytes

theorem Shows.append (h : Shows s e) (hcur : e.cursor = e.line.length)
    (htext : ∀ c ∈ text, c ≠ 0) : Edited s (s.shellAppendCompletion text) (e.append text) := by
  have hle := h.len_le
  have hline := h.line_eq
  obtain ⟨m, t, ht, happ, hm, hsame⟩ := @appendLoop_spec s text _ h.len
    fun i hi => h.str.byte i (le_of_lt hi)
  have htlen : t.length ≤ shellCmdMaxLen - e.line.length := by
    rw [ht]
    exact List.length_take_le ..
  have hlen : (e.line ++ t).length = e.line.length + t.length := List.length_append
  have hrow : OnlyRow e.active s.mem (update m (s.line + (e.line.length + t.length)) 0) := by
    intro a ha
    simp only [rowSize] at ha
    rw [update_of_ne (by omega), hsame a (by omega)]
  have hstr : Str (update m (s.line + (e.line.length + t.length)) 0) s.line (e.line ++ t) := by
    refine .of_bytes (fun i hi => ?_) ?_ fun c hc => ?_
    · rw [update_of_ne (by omega), hm i hi]
    · rw [hlen, update_self]
    · rcases List.mem_append.mp hc with hc | hc
      · exact h.str.ne_zero c hc
      · exact htext c (List.mem_of_mem_take (ht ▸ hc))
  have hshow := h.setLine hrow hstr (by omega) hlen.symm le_rfl
  have hsc : s.cursorOffset + t.length = (e.line ++ t).length := by rw [h.cursor, hcur, hlen]
  rw [shellAppendCompletion, happ, Editor.append, ← ht, hsc]
  exact ⟨hshow, hrow⟩

theorem Edited.trans {s₁ s₂ : Shell} {e₁ e₂ : Editor} (h : Edited s s₁ e₁)
    (h' : Edited s₁ s₂ e₂) (hact : e₂.active = e₁.active) : Edited s s₂ e₂ := by
  refine ⟨h'.shows, fun a ha => (h'.only a ha).trans (h.only a ?_)⟩
  rw [← hact]
  exact ha

namespace Editor

theorem append_nil (hcur : e.cursor = e.line.length) : e.append [] = e := by
  rw [append, List.take_nil, List.append_nil, setLine, ← hcur, line, update_eq_self]

theorem append_full (hcur : e.cursor = e.line.length) (hfull : shellCmdMaxLen ≤ e.line.length) :
    e.append text = e := by
  rw [append, Nat.sub_eq_zero_of_le hfull, List.take_zero, List.append_nil, setLine, ← hcur,
    line, update_eq_self]

theorem append_line : (e.append text).line =
    e.line ++ text.take (shellCmdMaxLen - e.line.length) := update_self ..

theorem append_append {a b : List Byte} : (e.append a).append b = e.append (a ++ b) := by
  have htake : e.line ++ (a ++ b).take (shellCmdMaxLen - e.line.length) =
      (e.append a).line ++ b.take (shellCmdMaxLen - (e.append a).line.length) := by
    rw [append_line, List.take_append, List.append_assoc, List.length_append, List.length_take]
    congr 3
    omega
  have hset : (e.append a).append b = e.setLine
      ((e.append a).line ++ b.take (shellCmdMaxLen - (e.append a).line.length))
      ((e.append a).line ++ b.take (shellCmdMaxLen - (e.append a).line.length)).length := by
    rw [append, setLine]
    congr 1
    exact update_idem ..
  rw [hset, ← htake]
  rfl

end Editor

theorem Shows.appendSpace (h : Shows s e) (hcur : e.cursor = e.line.length) :
    Edited s (if s.inputLineLen < shellCmdMaxLen then s.shellAppendCompletion [32] else s)
      (e.append [32]) := by
  split
  · refine h.append hcur fun c hc => ?_
    rw [List.mem_singleton.mp hc]
    decide
  rename_i hfull
  rw [h.len] at hfull
  rw [Editor.append_full hcur (Nat.le_of_not_lt hfull)]
  exact ⟨h, onlyRow_refl⟩

/-- The rest of a command of which the token is the beginning; there may be none. -/
theorem Shows.appendRest (h : Shows s e) (hcur : e.cursor = e.line.length) {first : List Byte}
    (hfirst : ∀ c ∈ (first.take shellCmdMaxLen).drop n, c ≠ 0) :
    Edited s (if min first.length shellCmdMaxLen > n then
        s.shellAppendCompletion ((first.take (min first.length shellCmdMaxLen)).drop n)
      else s) (e.append ((first.take shellCmdMaxLen).drop n)) := by
  have htake : first.take (min first.length shellCmdMaxLen) = first.take shellCmdMaxLen := by
    rw [min_comm, ← List.take_eq_take_min]
  rw [htake]
  split
  · exact h.append hcur hfirst
  rename_i hle
  have hnil : (first.take shellCmdMaxLen).drop n = [] := by
    rw [List.drop_eq_nil_iff, List.length_take]
    omega
  rw [hnil, Editor.append_nil hcur]
  exact ⟨h, onlyRow_refl⟩

theorem Shows.tab (h : Shows s e) (hcmds : ∀ cmd ∈ cmds, ∀ c ∈ cmd, c ≠ 0) :
    Edited s (s.shellHandleTabKey cmds) (e.complete cmds) := by
  rw [shellHandleTabKey, Editor.complete, h.cursor, h.len, h.typed_eq, completion]
  by_cases hcur : e.cursor = e.line.length
  · have hsame : Edited s s (e.append []) := by
      rw [Editor.append_nil hcur]
      exact ⟨h, onlyRow_refl⟩
    rw [if_neg (not_not.mpr hcur), if_pos hcur]
    cases commandTail e.line with
    | none => exact hsame
    | some token =>
      have hne : ∀ n k, ∀ c ∈ ((findCmdMatches cmds token).firstMatch.take n).drop k, c ≠ 0 :=
        fun n k c hc => findCmdMatches_ne_zero hcmds token c
          (List.mem_of_mem_take (List.mem_of_mem_drop hc))
      simp only
      generalize findCmdMatches cmds token = r at hne ⊢
      by_cases h0 : token.length = 0
      · rw [if_pos h0, if_pos h0]
        exact hsame
      rw [if_neg h0, if_neg h0]
      by_cases hc0 : r.count = 0
      · rw [if_pos hc0, if_pos hc0]
        exact hsame
      rw [if_neg hc0, if_neg hc0]
      by_cases hc1 : r.count = 1
      · rw [if_pos hc1, if_pos hc1, ← Editor.append_append]
        have hrest := h.appendRest hcur (hne shellCmdMaxLen token.length)
        refine hrest.trans (hrest.shows.appendSpace ?_) rfl
        rw [Editor.append_line]
        rfl
      rw [if_neg hc1, if_neg hc1]
      by_cases hcl : r.commonLen > token.length
      · rw [if_pos hcl, if_pos hcl]
        exact h.append hcur (hne r.commonLen token.length)
      · rw [if_neg hcl, if_neg hcl]
        exact hsame
  · rw [if_pos hcur, if_neg hcur]
    exact ⟨h, onlyRow_refl⟩

/-! ## The end of the line -/

theorem Shows.submit (h : Shows s e) :
    Edited s (shellProcess { s with inputLineLen := 0, cursorOffset := 0 }) e.submit := by
  have hlt := h.active_lt
  have hformer : (e.active + maxBufferedCmds - 1) % maxBufferedCmds < maxBufferedCmds :=
    Nat.mod_lt _ (by decide)
  have hkept : (s.mem.strnlen s.line shellCmdMaxLen > 0 ∧ s.rowsDiffer e.active
      ((e.active + maxBufferedCmds - 1) % maxBufferedCmds) = true) ↔
      (e.line ≠ [] ∧ e.line ≠ e.lines ((e.active + maxBufferedCmds - 1) % maxBufferedCmds)) := by
    refine and_congr ?_ (h.rowsDiffer_iff hlt hformer)
    rw [h.str.strnlen_eq, min_eq_left h.len_le, gt_iff_lt, List.length_pos_iff]
  have hact : (shellProcess { s with inputLineLen := 0, cursorOffset := 0 }) =
      { s with
        mem := memset s.mem (row e.submit.active) 0 rowSize
        inputLineLen := 0
        inputLineActive := e.submit.active
        toSelectIndex := e.submit.active
        cursorOffset := 0 } := by
    have : (if s.mem.strnlen s.line shellCmdMaxLen > 0 ∧ s.rowsDiffer s.inputLineActive
        ((s.inputLineActive + maxBufferedCmds - 1) % maxBufferedCmds) = true then
        (s.inputLineActive + 1) % maxBufferedCmds else s.inputLineActive) =
        e.submit.active := by
      rw [h.active]
      exact if_congr hkept rfl rfl
    rw [← this]
    rfl
  have hnew : e.submit.active < maxBufferedCmds := by
    rw [Editor.submit]
    split
    · exact Nat.mod_lt _ (by decide)
    · exact hlt
  have hrow : OnlyRow e.submit.active s.mem (memset s.mem (row e.submit.active) 0 rowSize) := by
    intro a ha
    rw [memset, fill_apply, if_neg (by omega)]
  have hline : e.submit.line = [] := update_self ..
  rw [hact]
  refine ⟨⟨rfl, hnew, rfl, hnew, rfl, by rw [hline]; rfl, Nat.zero_le _, fun r hr => ?_⟩, hrow⟩
  by_cases hra : r = e.submit.active
  · rw [hra, show e.submit.lines e.submit.active = [] from hline]
    refine ⟨.empty ?_, Nat.zero_le _⟩
    show memset s.mem (row e.submit.active) 0 rowSize (row e.submit.active) = 0
    rw [memset, fill_apply, if_pos (by simp only [rowSize]; omega)]
  · rw [show e.submit.lines r = e.lines r from update_of_ne hra ..]
    exact ⟨hrow.str hra (h.rows r hr).2 (h.rows r hr).1, (h.rows r hr).2⟩

/-! ## Every key -/

/-- The copies can do what this key asks for: there is at most one character behind the
cursor, and two zeros behind the line, when a character is inserted; a command that is
recalled leaves room for its zero. A function key needs a line that is not full. -/
def CleanKey (s : Shell) : Key → Prop
  | .byte ch => 32 ≤ ch ∧ ch ≤ 126 → s.inputLineLen < shellCmdMaxLen →
      s.inputLineLen ≤ s.cursorOffset + 1 ∧ s.mem (s.line + s.inputLineLen + 1) = 0
  | .escape .up => s.inputLineLen < shellCmdMaxLen ∧
      s.mem.strnlen (row (s.currentSelect true)) shellCmdMaxLen < shellCmdMaxLen
  | .escape .down => s.inputLineLen < shellCmdMaxLen ∧
      s.mem.strnlen (row (s.currentSelect false)) shellCmdMaxLen < shellCmdMaxLen
  | .escape _ => s.inputLineLen < shellCmdMaxLen

theorem Shows.special (h : Shows s e) {key : FunctionKey} (hok : CleanKey s (.escape key)) :
    Edited s (s.shellHandleSpecialChar key) (e.special key) := by
  have hcur := h.cursor
  have hlen := h.len
  have hcle := h.cursor_le
  cases key with
  | delete => exact h.delete
  | up | down => exact h.recallLine hok.2
  | right =>
    rw [shellHandleSpecialChar, Editor.special]
    split
    · rw [min_eq_left (by omega), ← hcur]
      exact ⟨h.setCursor (by omega), onlyRow_refl⟩
    · rw [min_eq_right (by omega), show e.line.length = e.cursor by omega]
      exact ⟨h, onlyRow_refl⟩
  | left =>
    rw [shellHandleSpecialChar, Editor.special]
    split
    · rw [← hcur]
      exact ⟨h.setCursor (by omega), onlyRow_refl⟩
    · rw [show e.cursor - 1 = e.cursor by omega]
      exact ⟨h, onlyRow_refl⟩
  | ends =>
    rw [shellHandleSpecialChar, Editor.special]
    split
    · rw [← hlen]
      exact ⟨h.setCursor (by omega), onlyRow_refl⟩
    · rw [show e.line.length = e.cursor by omega]
      exact ⟨h, onlyRow_refl⟩
  | home =>
    rw [shellHandleSpecialChar, Editor.special]
    split
    · exact ⟨h.setCursor (Nat.zero_le _), onlyRow_refl⟩
    · rw [show 0 = e.cursor by omega]
      exact ⟨h, onlyRow_refl⟩
  | none => exact ⟨h, onlyRow_refl⟩

theorem Shows.kick (h : Shows s e) (hcmds : ∀ cmd ∈ cmds, ∀ c ∈ cmd, c ≠ 0) {key : Key}
    (hok : CleanKey s key) : Edited s (s.kick cmds key) (e.press cmds key) := by
  have hlen := h.len
  rw [Shell.kick]
  cases key with
  | byte ch =>
    rw [shellInputLine, Editor.press]
    by_cases hbs : ch = 0x08 ∨ ch = 0x7f
    · rw [if_pos hbs, if_pos hbs]
      exact h.backspace
    rw [if_neg hbs, if_neg hbs]
    by_cases htab : ch = 0x09
    · rw [if_pos htab, if_pos htab]
      exact h.tab hcmds
    rw [if_neg htab, if_neg htab]
    by_cases hcr : ch = 0x0d
    · rw [if_pos hcr, if_pos hcr]
      exact h.submit
    rw [if_neg hcr, if_neg hcr]
    by_cases hlf : ch = 0x0a
    · rw [if_pos hlf, if_pos hlf]
      exact ⟨h, onlyRow_refl⟩
    rw [if_neg hlf, if_neg hlf, ← hlen]
    by_cases hroom : s.inputLineLen < shellCmdMaxLen
    · rw [if_pos hroom, if_pos hroom]
      by_cases hprint : 32 ≤ ch ∧ ch ≤ 126
      · obtain ⟨htail, hend⟩ := hok hprint hroom
        simp only [if_pos hprint]
        refine h.insert (fun h0 => ?_) hroom htail hend
        rw [h0] at hprint
        exact absurd hprint.1 (by decide)
      · simp only [if_neg hprint]
        exact ⟨h, onlyRow_refl⟩
    · rw [if_neg hroom, if_neg hroom]
      exact h.submit
  | escape key =>
    have hroom : s.inputLineLen < shellCmdMaxLen := by
      cases key with
      | up | down => exact hok.1
      | _ => exact hok
    rw [shellInputLine, if_pos hroom]
    exact h.special hok

/-! ## Every run -/

def KeyStep (cmds : List (List Byte)) (key : Key) (s s' : Shell) : Prop :=
  s' = s.kick cmds key

/-- The editor is given the same keys. -/
def noteEditor (cmds : List (List Byte)) (key : Key) (_ : Shell) (e : Editor) : Editor :=
  e.press cmds key

/-- Along every run of clean keys the shell's line and cursor are those of the editor, the
line has its zero, and the next clean key writes only into the row that is then active. -/
theorem shell_edits (hcmds : ∀ cmd ∈ cmds, ∀ c ∈ cmd, c ≠ 0) {tr : List Key} {x : Shell × Editor}
    (hrun : GuardedRun (Noted (KeyStep cmds) (noteEditor cmds)) (fun key x => CleanKey x.1 key)
      (.start, .start) tr x) :
    x.1.typed = x.2.line ∧ x.1.cursorOffset = x.2.cursor ∧
      x.1.cursorOffset ≤ x.1.inputLineLen ∧ x.1.inputLineLen ≤ shellCmdMaxLen ∧
      x.1.mem (x.1.line + x.1.inputLineLen) = 0 ∧
      ∀ key, CleanKey x.1 key → OnlyRow (x.1.kick cmds key).inputLineActive x.1.mem
        (x.1.kick cmds key).mem := by
  have h : Shows x.1 x.2 := by
    induction hrun with
    | nil => exact .start
    | cons _ hok hs ih =>
      rw [hs.1, hs.2]
      exact (ih.kick hcmds hok).shows
  refine ⟨h.typed_eq, h.cursor, ?_, ?_, ?_, fun key hok => ?_⟩
  · rw [h.cursor, h.len]
    exact h.cursor_le
  · rw [h.len]
    exact h.len_le
  · rw [h.len]
    exact h.str.end_zero
  · have hkick := h.kick hcmds hok
    rw [hkick.shows.active]
    exact hkick.only

/-- The keys in turn, with no command to complete. -/
def pressAll (keys : List Key) : Shell × Editor :=
  keys.foldl (fun x key => (x.1.kick [] key, x.2.press [] key)) (.start, .start)

theorem pressAll_run {keys : List Key} {ok : Key → Shell × Editor → Prop}
    (h : Meets (fun key (x : Shell × Editor) => (x.1.kick [] key, x.2.press [] key)) ok
      (.start, .start) keys) :
    GuardedRun (Noted (KeyStep []) (noteEditor [])) ok (.start, .start) keys.reverse
      (pressAll keys) :=
  .of_meets (fun _ _ => ⟨rfl, rfl⟩) h

theorem shell_edits_axb :
    (pressAll [.byte 97, .byte 98, .escape .left, .byte 120]).1.typed = [97, 120, 98] := by
  have hrun : GuardedRun (Noted (KeyStep []) (noteEditor [])) (fun key x => CleanKey x.1 key)
      (.start, .start) _ (pressAll [.byte 97, .byte 98, .escape .left, .byte 120]) :=
    pressAll_run ⟨fun _ _ => ⟨by decide, by decide⟩, fun _ _ => ⟨by decide, by decide⟩,
      (by decide : 2 < 100), fun _ _ => ⟨by decide, by decide⟩, trivial⟩
  rw [(shell_edits (fun _ hcmd => absurd hcmd List.not_mem_nil) hrun).1]
  decide

/-- With two characters behind the cursor the tail is not moved: `xbb`, not `xab`. -/
theorem shell_loses_tail :
    (∃ tr, GuardedRun (Noted (KeyStep []) (noteEditor [])) (fun _ _ => True) (.start, .start) tr
      (pressAll [.byte 97, .byte 98, .escape .left, .escape .left, .byte 120])) ∧
    (pressAll [.byte 97, .byte 98, .escape .left, .escape .left, .byte 120]).1.typed =
      [120, 98, 98] ∧
    (pressAll [.byte 97, .byte 98, .escape .left, .escape .left, .byte 120]).2.line =
      [120, 97, 98] :=
  ⟨⟨_, pressAll_run ⟨trivial, trivial, trivial, trivial, trivial, trivial⟩⟩, by decide, by decide⟩

end Sima.Bsp
