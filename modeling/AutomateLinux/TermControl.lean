import Mathlib.Algebra.Order.Ring.Int
import Mathlib.Data.List.Basic
import Mathlib.Data.List.Induction
import Mathlib.Data.Nat.Notation
import Mathlib.Tactic.Common

/-!
# The terminal's internal buffer

`termcontrol` keeps the characters it has written in a buffer that has rows for the
scroll-back above the visible ones.  A write to a visible cell goes to the bottom of
the buffer; a range is read from the rows it names.  The window keeps its size, and the
escape sequences that are printed besides are left out.
-/

namespace AutomateLinux

namespace TermControl

/-- A `char`. -/
abbrev CharByte := UInt8

def BLANK : CharByte := 32

/-! ## The buffer -/

structure Buffer where
  rows : ℕ
  cols : ℕ
  data : List (List CharByte)
  rowCount : data.length = rows
  colCount : ∀ row ∈ data, row.length = cols

def Buffer.new (rows cols : ℕ) : Buffer where
  rows := rows
  cols := cols
  data := List.replicate rows (List.replicate cols BLANK)
  rowCount := List.length_replicate
  colCount row hrow := by
    rw [List.eq_of_mem_replicate hrow]
    exact List.length_replicate

/-- The loop of `write` over the cells of a row, which ends with the row or the text. -/
def writeRow : List CharByte → ℕ → List CharByte → List CharByte
  | cells, _, [] => cells
  | cells, col, c :: str =>
      if col < cells.length then writeRow (cells.set col c) (col + 1) str else cells

theorem length_writeRow (cells : List CharByte) (col : ℕ) (str : List CharByte) :
    (writeRow cells col str).length = cells.length := by
  induction str generalizing cells col with
  | nil => rfl
  | cons c str ih =>
      rw [writeRow]
      split
      · rw [ih, List.length_set]
      · rfl

def Buffer.write (b : Buffer) (str : List CharByte) (row col : Int) : Buffer :=
  if row < 0 ∨ b.rows ≤ row ∨ col < 0 then b
  else
    { b with
      data := b.data.modify row.toNat fun cells => writeRow cells col.toNat str
      rowCount := by rw [List.length_modify, b.rowCount]
      colCount := by
        intro cells hcells
        obtain ⟨i, hi, rfl⟩ := List.getElem_of_mem hcells
        rw [List.getElem_modify]
        split
        · rw [length_writeRow]
          exact b.colCount _ (List.getElem_mem _)
        · exact b.colCount _ (List.getElem_mem _) }

def Buffer.at (b : Buffer) (row col : Int) : CharByte :=
  if row < 0 ∨ b.rows ≤ row ∨ col < 0 ∨ b.cols ≤ col then BLANK
  else ((b.data[row.toNat]?.getD [])[col.toNat]?).getD BLANK

/-! ## The terminal -/

structure CharacterInfo where
  ch : CharByte
  fg_color : Int := 0
  bg_color : Int := 0
  bold : Bool := false
  underline : Bool := false
  reverse : Bool := false
  blink : Bool := false
deriving DecidableEq

/-- A terminal after `init`, whose window keeps its size. -/
structure Terminal where
  vis_rows : ℕ
  vis_cols : ℕ
  scrollback_lines : ℕ
  buffer : Buffer
  bufferRows : buffer.rows = vis_rows + scrollback_lines
  bufferCols : buffer.cols = vis_cols

def Terminal.init (rows cols scrollback_lines : ℕ) : Terminal where
  vis_rows := rows
  vis_cols := cols
  scrollback_lines := scrollback_lines
  buffer := Buffer.new (rows + scrollback_lines) cols
  bufferRows := rfl
  bufferCols := rfl

theorem rows_write (b : Buffer) (str : List CharByte) (row col : Int) :
    (b.write str row col).rows = b.rows := by
  unfold Buffer.write
  split <;> rfl

theorem cols_write (b : Buffer) (str : List CharByte) (row col : Int) :
    (b.write str row col).cols = b.cols := by
  unfold Buffer.write
  split <;> rfl

def Terminal.setCharacterInfo (t : Terminal) (row col : Int) (info : CharacterInfo) :
    Terminal :=
  let br : Int := t.buffer.rows
  let bc : Int := t.buffer.cols
  let base_row := br - t.vis_rows
  let buf_row := base_row + row
  if 0 ≤ buf_row ∧ buf_row < br ∧ 0 ≤ col ∧ col < bc then
    { t with
      buffer := t.buffer.write [info.ch] buf_row col
      bufferRows := (rows_write ..).trans t.bufferRows
      bufferCols := (cols_write ..).trans t.bufferCols }
  else t

/-- `for (int i = first; i <= last; i++)`. -/
def loop (first last : Int) : List Int :=
  (List.range (last + 1 - first).toNat).map fun i => first + (i : ℕ)

/-- The cells that the two loops of `getCharacterRange` go through. -/
def rangeCells (cols : ℕ) (start_row start_col end_row end_col : Int) : List (Int × Int) :=
  (loop start_row end_row).flatMap fun row =>
    (loop (if row = start_row then start_col else 0)
      (if row = end_row then end_col else cols - 1)).map fun col => (row, col)

def Terminal.getCharacterRange (t : Terminal) (start_row start_col end_row end_col : Int) :
    List CharacterInfo :=
  (rangeCells t.buffer.cols start_row start_col end_row end_col).map fun cell =>
    { ch := t.buffer.at cell.1 cell.2, fg_color := -1, bg_color := -1 }

/-! ## Reading what was written -/

theorem getElem?_writeRow (cells : List CharByte) (col : ℕ) (str : List CharByte) (i : ℕ) :
    (writeRow cells col str)[i]? =
      if col ≤ i ∧ i < col + str.length ∧ i < cells.length then str[i - col]? else cells[i]? := by
  induction str generalizing cells col with
  | nil =>
      rw [writeRow, if_neg]
      simp only [List.length_nil]
      omega
  | cons c str ih =>
      rw [writeRow]
      split
      · rename_i hcol
        rw [ih, List.length_set, List.length_cons]
        rcases Nat.lt_trichotomy i col with hi | rfl | hi
        · rw [if_neg (by omega), if_neg (by omega), List.getElem?_set_ne (by omega)]
        · rw [if_neg (by omega), if_pos ⟨le_refl _, by omega, hcol⟩, List.getElem?_set_self hcol,
            Nat.sub_self]
          rfl
        · obtain ⟨k, rfl⟩ := Nat.exists_eq_add_of_lt hi
          have hindex : col + k + 1 - col = k + 1 := by omega
          have hindex' : col + k + 1 - (col + 1) = k := by omega
          rw [hindex, hindex', List.getElem?_cons_succ, List.getElem?_set_ne (by omega)]
          refine if_congr ?_ rfl rfl
          omega
      · rename_i hcol
        rw [if_neg (by omega)]

/-- A cell of the buffer, by natural numbers. -/
theorem at_natCast (b : Buffer) {row col : ℕ} (hrow : row < b.rows) (hcol : col < b.cols) :
    b.at row col = ((b.data[row]?.getD [])[col]?).getD BLANK := by
  unfold Buffer.at
  rw [if_neg (by omega), Int.toNat_natCast, Int.toNat_natCast]

theorem at_write (b : Buffer) (str : List CharByte) {row col r c : ℕ} (hrow : row < b.rows)
    (hr : r < b.rows) (hc : c < b.cols) :
    (b.write str row col).at r c =
      if r = row ∧ col ≤ c ∧ c < col + str.length then (str[c - col]?).getD BLANK
      else b.at r c := by
  have hdata : (b.write str row col).data =
      b.data.modify row fun cells => writeRow cells col str := by
    unfold Buffer.write
    rw [if_neg (by omega)]
    rfl
  rw [at_natCast _ (by rwa [rows_write]) (by rwa [cols_write]), at_natCast _ hr hc, hdata,
    List.getElem?_modify]
  obtain ⟨cells, hcells⟩ : ∃ cells, b.data[r]? = some cells :=
    ⟨_, List.getElem?_eq_getElem (by rwa [b.rowCount])⟩
  have hlength : cells.length = b.cols := b.colCount _ (List.mem_of_getElem? hcells)
  rw [hcells]
  by_cases hsame : row = r
  · subst hsame
    rw [Option.map_eq_map, Option.map_some, if_pos rfl, Option.getD_some, Option.getD_some,
      getElem?_writeRow, hlength]
    by_cases hcol : col ≤ c ∧ c < col + str.length
    · rw [if_pos ⟨hcol.1, hcol.2, hc⟩, if_pos ⟨rfl, hcol⟩]
    · rw [if_neg fun h => hcol ⟨h.1, h.2.1⟩, if_neg fun h => hcol h.2]
  · rw [if_neg fun h => hsame h.1.symm, Option.map_eq_map, Option.map_some, if_neg hsame]

theorem at_new {rows cols : ℕ} (row col : Int) : (Buffer.new rows cols).at row col = BLANK := by
  unfold Buffer.at Buffer.new
  split
  · rfl
  · rw [List.getElem?_replicate]
    split
    · rw [Option.getD_some, List.getElem?_replicate]
      split <;> rfl
    · rfl

/-! ## Writes to visible cells -/

structure Write where
  row : Int
  col : Int
  info : CharacterInfo
deriving DecidableEq

def Write.cell (w : Write) : Int × Int := (w.row, w.col)

def Terminal.IsVisible (t : Terminal) (cell : Int × Int) : Prop :=
  (0 ≤ cell.1 ∧ cell.1 < t.vis_rows) ∧ 0 ≤ cell.2 ∧ cell.2 < t.vis_cols

instance (t : Terminal) (cell : Int × Int) : Decidable (t.IsVisible cell) :=
  inferInstanceAs (Decidable (_ ∧ _))

def Terminal.writeAll (t : Terminal) (writes : List Write) : Terminal :=
  writes.foldl (fun t w => t.setCharacterInfo w.row w.col w.info) t

/-- The character of the last write to a cell, or a blank. -/
def lastWritten (writes : List Write) (cell : Int × Int) : CharByte :=
  (writes.filter fun w => w.cell = cell).getLast?.elim BLANK fun w => w.info.ch

/-- What the cells below the scroll-back would show if they stood at the top. -/
def shifted (scrollback : ℕ) (writes : List Write) (cell : Int × Int) : CharByte :=
  if (scrollback : Int) ≤ cell.1 then lastWritten writes (cell.1 - scrollback, cell.2) else BLANK

theorem lastWritten_concat (writes : List Write) (w : Write) (cell : Int × Int) :
    lastWritten (writes ++ [w]) cell =
      if w.cell = cell then w.info.ch else lastWritten writes cell := by
  unfold lastWritten
  rw [List.filter_append]
  split
  · rename_i hcell
    rw [List.filter_cons_of_pos (by simpa using hcell)]
    simp
  · rename_i hcell
    rw [List.filter_cons_of_neg (by simpa using hcell)]
    simp

section

variable {rows cols scrollback : ℕ} {writes : List Write} {t : Terminal}

theorem writeAll_concat (t : Terminal) (writes : List Write) (w : Write) :
    t.writeAll (writes ++ [w]) = (t.writeAll writes).setCharacterInfo w.row w.col w.info := by
  unfold Terminal.writeAll
  rw [List.foldl_append]
  rfl

theorem setCharacterInfo_size (t : Terminal) (row col : Int) (info : CharacterInfo) :
    (t.setCharacterInfo row col info).vis_rows = t.vis_rows ∧
      (t.setCharacterInfo row col info).vis_cols = t.vis_cols ∧
      (t.setCharacterInfo row col info).scrollback_lines = t.scrollback_lines := by
  unfold Terminal.setCharacterInfo
  dsimp only
  split <;> exact ⟨rfl, rfl, rfl⟩

theorem writeAll_size (t : Terminal) (writes : List Write) :
    (t.writeAll writes).vis_rows = t.vis_rows ∧ (t.writeAll writes).vis_cols = t.vis_cols ∧
      (t.writeAll writes).scrollback_lines = t.scrollback_lines := by
  induction writes using List.reverseRecOn with
  | nil => exact ⟨rfl, rfl, rfl⟩
  | append_singleton writes w ih =>
      rw [writeAll_concat]
      obtain ⟨hrows, hcols, hscrollback⟩ :=
        setCharacterInfo_size (t.writeAll writes) w.row w.col w.info
      exact ⟨hrows.trans ih.1, hcols.trans ih.2.1, hscrollback.trans ih.2.2⟩

/-- A write to a visible cell goes as many rows down as there are for the scroll-back. -/
theorem at_setCharacterInfo {w : Write} (hw : t.IsVisible w.cell) {r c : ℕ}
    (hr : r < t.vis_rows + t.scrollback_lines) (hc : c < t.vis_cols) :
    (t.setCharacterInfo w.row w.col w.info).buffer.at r c =
      if (r : Int) = t.scrollback_lines + w.row ∧ (c : Int) = w.col then w.info.ch
      else t.buffer.at r c := by
  obtain ⟨⟨hrow, hrow'⟩, hcol, hcol'⟩ := hw
  obtain ⟨row, hrowEq⟩ := Int.eq_ofNat_of_zero_le hrow
  obtain ⟨col, hcolEq⟩ := Int.eq_ofNat_of_zero_le hcol
  have hrowEq : w.row = row := hrowEq
  have hcolEq : w.col = col := hcolEq
  have hbufferRows := t.bufferRows
  have hbufferCols := t.bufferCols
  have hrow' : w.row < t.vis_rows := hrow'
  have hcol' : w.col < t.vis_cols := hcol'
  have hbufRow : (t.buffer.rows : Int) - t.vis_rows + w.row =
      ((t.scrollback_lines + row : ℕ) : Int) := by omega
  have hwrite : (t.setCharacterInfo w.row w.col w.info).buffer =
      t.buffer.write [w.info.ch] (t.scrollback_lines + row : ℕ) col := by
    unfold Terminal.setCharacterInfo
    dsimp only
    rw [if_pos (by omega)]
    dsimp only
    rw [hbufRow, hcolEq]
  rw [hwrite, at_write _ _ (by omega) (by omega) (by omega)]
  by_cases hcell : (r : Int) = t.scrollback_lines + w.row ∧ (c : Int) = w.col
  · have hcellEq : c - col = 0 := by omega
    rw [if_pos hcell, if_pos (by simp only [List.length_singleton]; omega), hcellEq]
    rfl
  · rw [if_neg hcell, if_neg (by simp only [List.length_singleton]; omega)]

theorem at_writeAll (hwrites : ∀ w ∈ writes, (Terminal.init rows cols scrollback).IsVisible w.cell)
    {r c : ℕ} (hr : r < rows + scrollback) (hc : c < cols) :
    ((Terminal.init rows cols scrollback).writeAll writes).buffer.at r c =
      shifted scrollback writes (r, c) := by
  induction writes using List.reverseRecOn with
  | nil =>
      refine (at_new _ _).trans ?_
      simp [shifted, lastWritten]
  | append_singleton writes w ih =>
      rw [List.forall_mem_append] at hwrites
      have hw := hwrites.2 w (List.mem_singleton_self w)
      have hsize := writeAll_size (.init rows cols scrollback) writes
      obtain ⟨hrows, hcols, hscrollback⟩ :
          ((Terminal.init rows cols scrollback).writeAll writes).vis_rows = rows ∧
            ((Terminal.init rows cols scrollback).writeAll writes).vis_cols = cols ∧
            ((Terminal.init rows cols scrollback).writeAll writes).scrollback_lines =
              scrollback := hsize
      have hvisible : ((Terminal.init rows cols scrollback).writeAll writes).IsVisible w.cell := by
        unfold Terminal.IsVisible
        rw [hrows, hcols]
        exact hw
      rw [writeAll_concat, at_setCharacterInfo hvisible (by rw [hrows, hscrollback]; exact hr)
        (by rw [hcols]; exact hc), hscrollback, ih hwrites.1]
      have hrow : 0 ≤ w.row := hw.1.1
      unfold shifted
      rw [lastWritten_concat]
      have hcell : w.cell = ((r : Int) - scrollback, (c : Int)) ↔
          (r : Int) = scrollback + w.row ∧ (c : Int) = w.col := by
        simp only [Write.cell, Prod.mk.injEq]
        omega
      by_cases hsame : (r : Int) = scrollback + w.row ∧ (c : Int) = w.col
      · have habove : (scrollback : Int) ≤ r := by omega
        rw [if_pos hsame, if_pos habove, if_pos (hcell.mpr hsame)]
      · rw [if_neg hsame, if_neg fun h => hsame (hcell.mp h)]

/-! ## Reading a range -/

theorem mem_loop {first last i : Int} : i ∈ loop first last ↔ first ≤ i ∧ i ≤ last := by
  unfold loop
  rw [List.mem_map]
  constructor
  · rintro ⟨k, hk, rfl⟩
    rw [List.mem_range] at hk
    omega
  · intro hi
    exact ⟨(i - first).toNat, by rw [List.mem_range]; omega, by omega⟩

theorem isVisible_of_mem_rangeCells {start_row start_col end_row end_col : Int}
    (hstart : t.IsVisible (start_row, start_col)) (hend : t.IsVisible (end_row, end_col))
    {cell : Int × Int}
    (hcell : cell ∈ rangeCells t.vis_cols start_row start_col end_row end_col) :
    t.IsVisible cell := by
  obtain ⟨⟨hrow, -⟩, hcol, -⟩ := hstart
  obtain ⟨⟨-, hrow'⟩, -, hcol'⟩ := hend
  obtain ⟨row, hmemRow, hmem⟩ := List.mem_flatMap.mp hcell
  obtain ⟨col, hmemCol, rfl⟩ := List.mem_map.mp hmem
  rw [mem_loop] at hmemRow hmemCol
  dsimp only at hrow hcol hrow' hcol'
  refine ⟨⟨by dsimp only; omega, by dsimp only; omega⟩, ?_, ?_⟩
  · have hfirst := hmemCol.1
    dsimp only
    split at hfirst <;> omega
  · have hlast := hmemCol.2
    dsimp only
    split at hlast <;> omega

section

variable {start_row start_col end_row end_col : Int}
  (hwrites : ∀ w ∈ writes, (Terminal.init rows cols scrollback).IsVisible w.cell)
  (hstart : (Terminal.init rows cols scrollback).IsVisible (start_row, start_col))
  (hend : (Terminal.init rows cols scrollback).IsVisible (end_row, end_col))

include hwrites hstart hend

/-- A range is read from the top of the buffer, where the visible cells are not. -/
theorem map_ch_getCharacterRange :
    (((Terminal.init rows cols scrollback).writeAll writes).getCharacterRange start_row start_col
        end_row end_col).map CharacterInfo.ch =
      (rangeCells cols start_row start_col end_row end_col).map (shifted scrollback writes) := by
  have hcols : ((Terminal.init rows cols scrollback).writeAll writes).buffer.cols = cols := by
    rw [Terminal.bufferCols, (writeAll_size _ writes).2.1]
    rfl
  unfold Terminal.getCharacterRange
  rw [hcols, List.map_map, List.map_inj_left]
  intro cell hcell
  obtain ⟨⟨hrow, hrow'⟩, hcol, hcol'⟩ := isVisible_of_mem_rangeCells hstart hend hcell
  obtain ⟨row, col⟩ := cell
  obtain ⟨r, rfl⟩ := Int.eq_ofNat_of_zero_le hrow
  obtain ⟨c, rfl⟩ := Int.eq_ofNat_of_zero_le hcol
  exact at_writeAll hwrites (Nat.lt_add_right _ (Int.ofNat_lt.mp hrow')) (Int.ofNat_lt.mp hcol')

/-- The characters of a range are those last written to its cells exactly if the same
are last written as many rows higher as the scroll-back has, with blanks above. -/
theorem getCharacterRange_iff :
    (((Terminal.init rows cols scrollback).writeAll writes).getCharacterRange start_row start_col
        end_row end_col).map CharacterInfo.ch =
        (rangeCells cols start_row start_col end_row end_col).map (lastWritten writes) ↔
      ∀ cell ∈ rangeCells cols start_row start_col end_row end_col,
        lastWritten writes cell = shifted scrollback writes cell := by
  rw [map_ch_getCharacterRange hwrites hstart hend, eq_comm, List.map_inj_left]

end

end

/-- A character that is written to the first row and to the third one. -/
def repeated : List Write := [⟨0, 0, { ch := 65 }⟩, ⟨2, 0, { ch := 65 }⟩]

/-- With a scroll-back of two rows it is read back from the third. -/
theorem repeated_readBack :
    (((Terminal.init 24 80 2).writeAll repeated).getCharacterRange 2 0 2 1).map
        CharacterInfo.ch = [65, BLANK] :=
  ((getCharacterRange_iff (by decide) (by decide) (by decide)).mpr (by decide)).trans (by decide)

/-- One character, written to the top left cell. -/
def topLeft : List Write := [⟨0, 0, { ch := 65 }⟩]

/-- With the default scroll-back it is not read back. -/
theorem topLeft_notReadBack :
    (∀ w ∈ topLeft, (Terminal.init 24 80 1000).IsVisible w.cell) ∧
      (rangeCells 80 0 0 0 0).map (lastWritten topLeft) = [65] ∧
      (((Terminal.init 24 80 1000).writeAll topLeft).getCharacterRange 0 0 0 0).map
        CharacterInfo.ch = [BLANK] ∧
      (((Terminal.init 24 80 1000).writeAll topLeft).getCharacterRange 0 0 0 0).map
        CharacterInfo.ch ≠ (rangeCells 80 0 0 0 0).map (lastWritten topLeft) := by
  rw [map_ch_getCharacterRange (by decide) (by decide) (by decide)]
  decide

end TermControl

end AutomateLinux
