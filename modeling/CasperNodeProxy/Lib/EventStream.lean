import Mathlib.Data.List.Basic
import CasperNodeProxy.Lib.Wire

/-!
# Event streams

The text format of server-sent events, as bytes. A reader takes one byte after the other and
dispatches an event at every blank line behind some data; lines end with LF, CR or both.

* `Reader`, `step`, `feed`: the reader.
* `Item`, `Item.write`: events and comments, as a server writes them.
* `feed_line`, `feed_dataLines`: what a line, and the lines of some data, do to a reader.
* **`feed_items`**: what is written is read back, with comments anywhere in between.
* **`prefix_dispatched`**: whatever has arrived so far, a prefix of the events is dispatched.
-/

namespace EventStream

open Wire

/-- A line feed. -/
abbrev lf : UInt8 := 10
/-- A carriage return. -/
abbrev cr : UInt8 := 13
/-- A colon, between a name and a value. -/
abbrev colon : UInt8 := 58
/-- A blank. -/
abbrev space : UInt8 := 32

/-- The name `data`. -/
def dataField : Bytes := [100, 97, 116, 97]
/-- The name `event`. -/
def eventField : Bytes := [101, 118, 101, 110, 116]
/-- The name `id`. -/
def idField : Bytes := [105, 100]

/-! ## Reading -/

/-- An event as it is dispatched. -/
structure Event where
  type : Bytes
  lastEventId : Bytes
  data : Bytes
  deriving DecidableEq, Repr

/-- The buffers of a reader, and what it has dispatched. -/
structure Reader where
  /-- The line that is being read. -/
  line : Bytes
  /-- A carriage return has ended the last line. -/
  afterCr : Bool
  data : Bytes
  type : Bytes
  lastEventId : Bytes
  events : List Event
  deriving DecidableEq, Repr

namespace Reader

/-- A reader that has read nothing. -/
def new : Reader := ⟨[], false, [], [], [], []⟩

/-- A field of a line; an id with a null byte is ignored. -/
def field (r : Reader) (name value : Bytes) : Reader :=
  if name = dataField then { r with data := r.data ++ value ++ [lf] }
  else if name = eventField then { r with type := value }
  else if name = idField then if 0 ∈ value then r else { r with lastEventId := value }
  else r

/-- A blank line. -/
def dispatch (r : Reader) : Reader :=
  if r.data = [] then { r with type := [] }
  else { r with
    data := []
    type := []
    events := r.events ++ [⟨r.type, r.lastEventId, r.data.dropLast⟩] }

/-- The name of the field on a line, and its value without one blank in front. -/
def splitLine (line : Bytes) : Bytes × Bytes :=
  let value := (line.dropWhile (· ≠ colon)).drop 1
  (line.takeWhile (· ≠ colon), if value.head? = some space then value.drop 1 else value)

/-- A line is complete: it is blank, a comment or a field. -/
def endLine (r : Reader) : Reader :=
  let cleared := { r with line := [] }
  if r.line = [] then cleared.dispatch
  else if r.line.head? = some colon then cleared
  else cleared.field (splitLine r.line).1 (splitLine r.line).2

/-- One byte is read; a line ends with CR, LF or both. -/
def step (r : Reader) (b : UInt8) : Reader :=
  if b = lf then if r.afterCr then { r with afterCr := false } else r.endLine
  else if b = cr then { r.endLine with afterCr := true }
  else { r with line := r.line ++ [b], afterCr := false }

/-- Bytes are read. -/
def feed (r : Reader) (bytes : Bytes) : Reader := bytes.foldl step r

theorem feed_append (r : Reader) (a b : Bytes) : r.feed (a ++ b) = (r.feed a).feed b :=
  List.foldl_append

theorem feed_cons (r : Reader) (b : UInt8) (bytes : Bytes) :
    r.feed (b :: bytes) = (r.step b).feed bytes := rfl

end Reader

/-! ## Writing -/

/-- What a server writes: an event with its id and data, or a comment. -/
inductive Item
  | event (id data : Bytes)
  | comment (text : Bytes)
  deriving DecidableEq, Repr

/-- A field on a line of its own. -/
def writeField (name value : Bytes) : Bytes := name ++ [colon, space] ++ value ++ [lf]

/-- The bytes of an item; data take a field for every line. -/
def Item.write : Item → Bytes
  | .event id data => writeField idField id ++
      (data.splitOn lf).flatMap (writeField dataField) ++ [lf]
  | .comment text => [colon] ++ text ++ [lf, lf]

/-- The texts that can be written: no line break in an id or a comment, and none but LF in data. -/
def Item.Writable : Item → Prop
  | .event id data => (∀ b ∈ id, b ≠ lf ∧ b ≠ cr ∧ b ≠ 0) ∧ ∀ b ∈ data, b ≠ cr
  | .comment text => ∀ b ∈ text, b ≠ lf ∧ b ≠ cr

/-- What a reader makes of an item. -/
def Item.dispatched : Item → Option Event
  | .event id data => some ⟨[], id, data⟩
  | .comment _ => none

/-! ## Lines -/

namespace Reader

theorem withLine_nil {r : Reader} (h : r.line = []) : { r with line := [] } = r := by
  rw [← h]

theorem feed_plain {line : Bytes} (h : ∀ b ∈ line, b ≠ lf ∧ b ≠ cr) {r : Reader}
    (hcr : r.afterCr = false) : r.feed line = { r with line := r.line ++ line } := by
  induction line generalizing r with
  | nil => simp [feed]
  | cons b line ih =>
    obtain ⟨hlf, hcr'⟩ := h b List.mem_cons_self
    have hstep : r.step b = { r with line := r.line ++ [b], afterCr := false } := by
      simp [step, hlf, hcr']
    rw [feed_cons, hstep, ih (fun c hc => h c (List.mem_cons_of_mem _ hc)) rfl]
    simp [hcr]

theorem feed_line {line : Bytes} (h : ∀ b ∈ line, b ≠ lf ∧ b ≠ cr) {r : Reader}
    (hcr : r.afterCr = false) (hline : r.line = []) :
    r.feed (line ++ [lf]) = { r with line := line }.endLine := by
  rw [feed_append, feed_plain h hcr]
  simp [feed, step, hcr, hline]

/-- A name that can stand in front of a colon. -/
def IsName (name : Bytes) : Prop := name ≠ [] ∧ ∀ b ∈ name, b ≠ colon ∧ b ≠ lf ∧ b ≠ cr

theorem isName_data : IsName dataField := ⟨by simp [dataField], by simp [dataField, colon, lf, cr]⟩

theorem isName_id : IsName idField := ⟨by simp [idField], by simp [idField, colon, lf, cr]⟩

theorem splitLine_field {name : Bytes} (hname : ∀ b ∈ name, b ≠ colon) (value : Bytes) :
    splitLine (name ++ [colon, space] ++ value) = (name, value) := by
  have htake : (name ++ [colon, space] ++ value).takeWhile (· ≠ colon) = name := by
    rw [List.append_assoc, List.takeWhile_append_of_pos (by simpa using hname)]
    simp
  have hdrop : (name ++ [colon, space] ++ value).dropWhile (· ≠ colon) =
      [colon, space] ++ value := by
    rw [List.append_assoc, List.dropWhile_append_of_pos (by simpa using hname)]
    simp
  rw [splitLine, htake, hdrop]
  simp

theorem feed_field {name value : Bytes} (hname : IsName name)
    (hvalue : ∀ b ∈ value, b ≠ lf ∧ b ≠ cr) {r : Reader} (hcr : r.afterCr = false)
    (hline : r.line = []) : r.feed (writeField name value) = r.field name value := by
  have hall : ∀ b ∈ name ++ [colon, space] ++ value, b ≠ lf ∧ b ≠ cr := by
    simp only [List.mem_append, List.mem_cons, List.not_mem_nil, or_false]
    rintro b ((hb | rfl | rfl) | hb)
    · exact (hname.2 b hb).2
    · decide
    · decide
    · exact hvalue b hb
  rw [writeField, feed_line hall hcr hline]
  obtain ⟨b, rest, hb⟩ := List.exists_cons_of_ne_nil hname.1
  have hhead : b ≠ colon := (hname.2 b (by rw [hb]; exact List.mem_cons_self)).1
  rw [endLine, splitLine_field fun b hb => (hname.2 b hb).1]
  simp [hb, hhead, withLine_nil hline]

end Reader

/-! ## Data -/

theorem splitOn_cons_ne (data : Bytes) {b : UInt8} (hb : b ≠ lf) :
    ∃ line lines, data.splitOn lf = line :: lines ∧
      (b :: data).splitOn lf = (b :: line) :: lines := by
  obtain ⟨line, lines, h⟩ := List.exists_cons_of_ne_nil (List.splitOn_ne_nil lf data)
  refine ⟨line, lines, h, ?_⟩
  rw [List.splitOn_cons_eq_if_modifyHead, if_neg (by simpa using hb), h]
  rfl

theorem splitOn_cons_lf (data : Bytes) : (lf :: data).splitOn lf = [] :: data.splitOn lf := by
  rw [List.splitOn_cons_eq_if_modifyHead, if_pos (by simp)]

theorem mem_splitOn {data line : Bytes} (h : line ∈ data.splitOn lf) :
    ∀ b ∈ line, b ≠ lf ∧ b ∈ data := by
  induction data generalizing line with
  | nil =>
    rw [List.splitOn_nil, List.mem_singleton] at h
    simp [h]
  | cons c data ih =>
    intro b hb
    by_cases hc : c = lf
    · subst hc
      rw [splitOn_cons_lf] at h
      rcases List.mem_cons.mp h with rfl | h
      · simp at hb
      · exact ⟨(ih h b hb).1, List.mem_cons_of_mem _ (ih h b hb).2⟩
    · obtain ⟨first, lines, hsplit, hcons⟩ := splitOn_cons_ne data hc
      rw [hsplit] at ih
      rw [hcons] at h
      rcases List.mem_cons.mp h with rfl | h
      · rcases List.mem_cons.mp hb with rfl | hb
        · exact ⟨hc, List.mem_cons_self⟩
        · have := ih List.mem_cons_self b hb
          exact ⟨this.1, List.mem_cons_of_mem _ this.2⟩
      · have := ih (List.mem_cons_of_mem _ h) b hb
        exact ⟨this.1, List.mem_cons_of_mem _ this.2⟩

theorem flatMap_splitOn (data : Bytes) :
    (data.splitOn lf).flatMap (fun line => line ++ [lf]) = data ++ [lf] := by
  induction data with
  | nil => simp
  | cons b data ih =>
    by_cases hb : b = lf
    · rw [hb, splitOn_cons_lf, List.flatMap_cons, ih]
      simp
    · obtain ⟨line, lines, hsplit, hcons⟩ := splitOn_cons_ne data hb
      rw [hsplit] at ih
      rw [hcons]
      simpa using ih

namespace Reader

theorem feed_lines {lines : List Bytes} (h : ∀ line ∈ lines, ∀ b ∈ line, b ≠ lf ∧ b ≠ cr)
    {r : Reader} (hcr : r.afterCr = false) (hline : r.line = []) :
    r.feed (lines.flatMap (writeField dataField)) =
      { r with data := r.data ++ lines.flatMap fun line => line ++ [lf] } := by
  induction lines generalizing r with
  | nil => simp [feed]
  | cons line lines ih =>
    rw [List.flatMap_cons, feed_append,
      feed_field isName_data (h line List.mem_cons_self) hcr hline]
    have hfield : r.field dataField line = { r with data := r.data ++ line ++ [lf] } := by
      simp [field]
    rw [hfield, ih (r := { r with data := r.data ++ line ++ [lf] })
      (fun l hl => h l (List.mem_cons_of_mem _ hl)) hcr hline]
    simp

/-- **The lines of some data** give the data back. -/
theorem feed_dataLines {data : Bytes} (h : ∀ b ∈ data, b ≠ cr) {r : Reader}
    (hcr : r.afterCr = false) (hline : r.line = []) :
    r.feed ((data.splitOn lf).flatMap (writeField dataField)) =
      { r with data := r.data ++ data ++ [lf] } := by
  have hlines : ∀ line ∈ data.splitOn lf, ∀ b ∈ line, b ≠ lf ∧ b ≠ cr := by
    intro line hl b hb
    obtain ⟨hlf, hmem⟩ := mem_splitOn hl b hb
    exact ⟨hlf, h b hmem⟩
  rw [feed_lines hlines hcr hline, flatMap_splitOn, List.append_assoc]

/-! ## Items -/

/-- Between two items: no line is open and no data is collected. -/
structure Fresh (r : Reader) : Prop where
  line : r.line = []
  afterCr : r.afterCr = false
  data : r.data = []
  type : r.type = []

theorem fresh_new : new.Fresh := ⟨rfl, rfl, rfl, rfl⟩

/-- What an item does to a reader. -/
def take (r : Reader) : Item → Reader
  | .event id data => { r with lastEventId := id, events := r.events ++ [⟨[], id, data⟩] }
  | .comment _ => r

theorem Fresh.take {r : Reader} (h : r.Fresh) (x : Item) : (r.take x).Fresh := by
  cases x with
  | event id data => exact ⟨h.line, h.afterCr, h.data, h.type⟩
  | comment text => exact h

theorem feed_blank {r : Reader} (hcr : r.afterCr = false) (hline : r.line = []) :
    r.feed [lf] = r.dispatch := by
  have hstep : r.step lf = r.endLine := by simp [step, hcr]
  rw [feed_cons, hstep, endLine, if_pos hline, withLine_nil hline]
  rfl

theorem feed_event {id data : Bytes} (h : (Item.event id data).Writable) {r : Reader}
    (hr : r.Fresh) : r.feed (Item.event id data).write = r.take (.event id data) := by
  have hid : ∀ b ∈ id, b ≠ lf ∧ b ≠ cr := fun b hb => ⟨(h.1 b hb).1, (h.1 b hb).2.1⟩
  have hnull : ¬ (0 : UInt8) ∈ id := fun h0 => (h.1 0 h0).2.2 rfl
  have hfield : r.field idField id = { r with lastEventId := id } := by
    have h₁ : idField ≠ dataField := by decide
    have h₂ : idField ≠ eventField := by decide
    simp [field, h₁, h₂, hnull]
  have hdata := feed_dataLines (r := { r with lastEventId := id }) h.2 hr.afterCr hr.line
  have hblank := feed_blank (r := { r with lastEventId := id, data := r.data ++ data ++ [lf] })
    hr.afterCr hr.line
  rw [Item.write, List.append_assoc, feed_append, feed_append,
    feed_field isName_id hid hr.afterCr hr.line, hfield, hdata]
  refine hblank.trans ?_
  simp [dispatch, Reader.take, hr.data, hr.type]

theorem feed_comment {text : Bytes} (h : (Item.comment text).Writable) {r : Reader}
    (hr : r.Fresh) : r.feed (Item.comment text).write = r := by
  have hall : ∀ b ∈ [colon] ++ text, b ≠ lf ∧ b ≠ cr := by
    intro b hb
    rcases List.mem_append.mp hb with hb | hb
    · rw [List.mem_singleton.mp hb]
      decide
    · exact h b hb
  have hsplit : (Item.comment text).write = ([colon] ++ text ++ [lf]) ++ [lf] := by
    simp [Item.write]
  have hskip : r.feed ([colon] ++ text ++ [lf]) = r := by
    rw [feed_line hall hr.afterCr hr.line]
    simp [endLine, withLine_nil hr.line]
  rw [hsplit, feed_append, hskip, feed_blank hr.afterCr hr.line, dispatch, if_pos hr.data]
  have hr' : ({ r with type := [] } : Reader) = r := by
    rw [← hr.type]
  exact hr'

end Reader

/-- A writer of items that every reader understands. -/
def Understood (write : Item → Bytes) : Prop :=
  ∀ x : Item, x.Writable → ∀ r : Reader, r.Fresh → r.feed (write x) = r.take x

/-- **An item that is written is read.** -/
theorem understood_write : Understood Item.write := by
  intro x hx r hr
  cases x with
  | event id data => exact Reader.feed_event hx hr
  | comment text => exact Reader.feed_comment hx hr

theorem Reader.foldl_take_events (r : Reader) (items : List Item) :
    (items.foldl Reader.take r).events = r.events ++ items.filterMap Item.dispatched := by
  induction items generalizing r with
  | nil => simp
  | cons x items ih =>
    rw [List.foldl_cons, ih]
    cases x <;> simp [Reader.take, Item.dispatched, List.filterMap_cons]

section Streams

variable {write : Item → Bytes} (hw : Understood write)
include hw

theorem feed_items {items : List Item} (h : ∀ x ∈ items, x.Writable) {r : Reader}
    (hr : r.Fresh) : r.feed (items.flatMap write) = items.foldl Reader.take r := by
  induction items generalizing r with
  | nil => rfl
  | cons x items ih =>
    rw [List.flatMap_cons, Reader.feed_append, hw x (h x List.mem_cons_self) r hr,
      ih (fun y hy => h y (List.mem_cons_of_mem _ hy)) (hr.take x), List.foldl_cons]

/-- **What is written is read back**, with comments anywhere. -/
theorem events_items {items : List Item} (h : ∀ x ∈ items, x.Writable) :
    (Reader.new.feed (items.flatMap write)).events = items.filterMap Item.dispatched := by
  rw [feed_items hw h Reader.fresh_new, Reader.foldl_take_events]
  rfl

end Streams

/-! ## What has arrived -/

namespace Reader

theorem dispatch_events (r : Reader) : r.events <+: r.dispatch.events := by
  unfold dispatch
  split_ifs
  · exact List.prefix_refl _
  · exact List.prefix_append _ _

theorem field_events (r : Reader) (name value : Bytes) :
    r.events <+: (r.field name value).events := by
  unfold field
  split_ifs <;> exact List.prefix_refl _

theorem endLine_events (r : Reader) : r.events <+: r.endLine.events := by
  unfold endLine
  dsimp only
  split_ifs
  · exact dispatch_events { r with line := [] }
  · exact List.prefix_refl _
  · exact field_events { r with line := [] } _ _

theorem step_events (r : Reader) (b : UInt8) : r.events <+: (r.step b).events := by
  unfold step
  split_ifs
  · exact List.prefix_refl _
  · exact endLine_events r
  · exact endLine_events r
  · exact List.prefix_refl _

/-- A reader never takes an event back. -/
theorem feed_events (r : Reader) (bytes : Bytes) : r.events <+: (r.feed bytes).events := by
  induction bytes generalizing r with
  | nil => exact List.prefix_refl _
  | cons b bytes ih => exact (step_events r b).trans (ih (r.step b))

end Reader

/-- **What has arrived so far** is dispatched as a prefix of the events, wherever it ends. -/
theorem prefix_dispatched {write : Item → Bytes} (hw : Understood write) {items : List Item}
    (h : ∀ x ∈ items, x.Writable) {arrived : Bytes} (ha : arrived <+: items.flatMap write) :
    (Reader.new.feed arrived).events <+: items.filterMap Item.dispatched := by
  obtain ⟨rest, hrest⟩ := ha
  rw [← events_items hw h, ← hrest, Reader.feed_append]
  exact Reader.feed_events _ rest

end EventStream
