import KafkaCharm.Quorum
import Mathlib.Algebra.Order.Ring.Int

namespace KafkaCharm

open PyText

namespace KRaftUnitStatus

/-- `KRaftUnitStatus.value`. -/
def text : KRaftUnitStatus → Str
  | .leader => leaderText
  | .follower => followerText
  | .observer => observerText

theorem ofText_text (s : KRaftUnitStatus) : ofText s.text = some s := by
  cases s <;> decide

end KRaftUnitStatus

/-- The text of a column, without white space around it. -/
structure Column where
  text : Str
  trimmed : strip text = text
  no_tab : '\t' ∉ text
  no_lineFeed : '\n' ∉ text

/-- The numbers of spaces before and behind the text of a column. -/
structure Padding where
  before : Nat
  behind : Nat

def Padding.pad (p : Padding) (s : Str) : Str :=
  List.replicate p.before ' ' ++ s ++ List.replicate p.behind ' '

/-- The padding of each of the seven columns. -/
structure RowPadding where
  pads : List Padding
  length_pads : pads.length = 7

/-- The padded columns with tabs between them. -/
def RowPadding.line (p : RowPadding) (cells : List Str) : Str :=
  ['\t'].intercalate (List.zipWith Padding.pad p.pads cells)

/-- A row of the table. -/
structure QuorumRow where
  nodeId : Int
  directoryId : Column
  logEndOffset : Column
  lag : Column
  lastFetchTimestamp : Column
  lastCaughtUpTimestamp : Column
  status : KRaftUnitStatus
  padding : RowPadding

def QuorumRow.cells (r : QuorumRow) : List Str :=
  [intText r.nodeId, r.directoryId.text, r.logEndOffset.text, r.lag.text,
    r.lastFetchTimestamp.text, r.lastCaughtUpTimestamp.text, r.status.text]

def QuorumRow.line (r : QuorumRow) : Str := r.padding.line r.cells

def headerCells : List Str :=
  ["NodeId", "DirectoryId", "LogEndOffset", "Lag", "LastFetchTimestamp",
    "LastCaughtUpTimestamp", "Status"]

/-- The line above the rows. -/
def headerLine (p : RowPadding) : Str := p.line headerCells

/-- Any other line: it has fewer than seven columns. -/
structure OtherLine where
  text : Str
  no_lineFeed : '\n' ∉ text
  few : (text.splitOn '\t').length < 7

inductive QuorumLine where
  | row (r : QuorumRow)
  | header (p : RowPadding)
  | other (l : OtherLine)

def QuorumLine.text : QuorumLine → Str
  | .row r => r.line
  | .header p => headerLine p
  | .other l => l.text

def QuorumLine.row? : QuorumLine → Option QuorumRow
  | .row r => some r
  | _ => none

/-- What the command prints. Each node has one row. -/
structure QuorumOutput where
  lines : List QuorumLine
  distinct : ((lines.filterMap QuorumLine.row?).map QuorumRow.nodeId).Nodup

namespace QuorumOutput

variable (o : QuorumOutput)

def rows : List QuorumRow := o.lines.filterMap QuorumLine.row?

def text : Str := ['\n'].intercalate (o.lines.map QuorumLine.text)

end QuorumOutput

/-- The entry of a row. -/
def QuorumRow.entry (r : QuorumRow) : Int × KRaftQuorumInfo :=
  (r.nodeId, ⟨r.directoryId.text, parseLagCol r.lag.text, r.status⟩)

/-! ## Columns -/

theorem isSpace_of_mem_replicate {n : Nat} {c : Char} (h : c ∈ List.replicate n ' ') :
    isSpace c = true := by
  rw [(List.mem_replicate.mp h).2]
  decide

theorem strip_pad (p : Padding) {s : Str} (h : strip s = s) : strip (p.pad s) = s := by
  rw [Padding.pad, List.append_assoc, strip_append fun c => isSpace_of_mem_replicate,
    strip_append_right fun c => isSpace_of_mem_replicate, h]

theorem notMem_pad {c : Char} (hc : c ≠ ' ') (p : Padding) {s : Str} (h : c ∉ s) :
    c ∉ p.pad s := by
  have hspaces : ∀ n, c ∉ List.replicate n ' ' := fun n hmem => hc (List.mem_replicate.mp hmem).2
  simp only [Padding.pad, List.mem_append, not_or]
  exact ⟨⟨hspaces _, h⟩, hspaces _⟩

/-- A cell: it has no white space around it and holds neither a tab nor a line feed. -/
def IsCell (s : Str) : Prop := strip s = s ∧ '\t' ∉ s ∧ '\n' ∉ s

instance (s : Str) : Decidable (IsCell s) := inferInstanceAs (Decidable (_ ∧ _ ∧ _))

theorem Column.isCell (c : Column) : IsCell c.text := ⟨c.trimmed, c.no_tab, c.no_lineFeed⟩

theorem isCell_of_spaceFree {s : Str} (h : SpaceFree s) : IsCell s :=
  ⟨strip_of_spaceFree h, fun ht => absurd (h _ ht) (by decide), fun hn => absurd (h _ hn) (by decide)⟩

theorem QuorumRow.isCell (r : QuorumRow) : ∀ s ∈ r.cells, IsCell s := by
  have hstatus : IsCell r.status.text := by cases r.status <;> decide
  simp only [QuorumRow.cells, List.forall_mem_cons, List.not_mem_nil, false_imp_iff, implies_true,
    and_true]
  exact ⟨isCell_of_spaceFree (intText_spaceFree r.nodeId), r.directoryId.isCell,
    r.logEndOffset.isCell, r.lag.isCell, r.lastFetchTimestamp.isCell,
    r.lastCaughtUpTimestamp.isCell, hstatus⟩

theorem notMem_zipWith_pad {c : Char} (hc : c ≠ ' ') {pads : List Padding} {cells : List Str}
    (h : ∀ s ∈ cells, c ∉ s) : ∀ s ∈ List.zipWith Padding.pad pads cells, c ∉ s := by
  induction pads generalizing cells with
  | nil => simp
  | cons p pads ih =>
    cases cells with
    | nil => simp
    | cons s cells =>
      obtain ⟨hs, hcells⟩ := List.forall_mem_cons.mp h
      rw [List.zipWith_cons_cons]
      exact List.forall_mem_cons.mpr ⟨notMem_pad hc p hs, ih hcells⟩

theorem map_strip_zipWith_pad {pads : List Padding} {cells : List Str}
    (hlength : pads.length = cells.length) (h : ∀ s ∈ cells, strip s = s) :
    (List.zipWith Padding.pad pads cells).map strip = cells := by
  induction pads generalizing cells with
  | nil =>
    cases cells with
    | nil => rfl
    | cons s cells => cases hlength
  | cons p pads ih =>
    cases cells with
    | nil => cases hlength
    | cons s cells =>
      obtain ⟨hs, hcells⟩ := List.forall_mem_cons.mp h
      rw [List.zipWith_cons_cons, List.map_cons, strip_pad p hs, ih (Nat.succ.inj hlength) hcells]

/-- The columns of a line are read as they were written. -/
theorem fields_line (p : RowPadding) {cells : List Str} (hlength : cells.length = 7)
    (h : ∀ s ∈ cells, IsCell s) : ((p.line cells).splitOn '\t').map strip = cells := by
  have hpads : p.pads.length = cells.length := by rw [p.length_pads, hlength]
  have hsplit : (p.line cells).splitOn '\t' = List.zipWith Padding.pad p.pads cells := by
    apply List.splitOn_intercalate
    · exact notMem_zipWith_pad (by decide) fun s hs => (h s hs).2.1
    · apply List.ne_nil_of_length_pos
      rw [List.length_zipWith, hpads, hlength]
      decide
  rw [hsplit, map_strip_zipWith_pad hpads fun s hs => (h s hs).1]

theorem lineFeed_notMem_line (p : RowPadding) {cells : List Str} (h : ∀ s ∈ cells, IsCell s) :
    '\n' ∉ p.line cells := by
  have hcells : ∀ s ∈ List.zipWith Padding.pad p.pads cells, '\n' ∉ s :=
    notMem_zipWith_pad (by decide) fun s hs => (h s hs).2.2
  unfold RowPadding.line
  generalize List.zipWith Padding.pad p.pads cells = padded at hcells
  induction padded with
  | nil => simp
  | cons s padded ih =>
    obtain ⟨hs, hpadded⟩ := List.forall_mem_cons.mp hcells
    cases padded with
    | nil => simpa using hs
    | cons t padded =>
      rw [List.intercalate_cons_cons]
      simp only [List.mem_append, not_or]
      exact ⟨⟨hs, by decide⟩, ih hpadded⟩

/-! ## Lines -/

theorem parseQuorumLine_row (r : QuorumRow) : parseQuorumLine r.line = some r.entry := by
  have hfields := fields_line r.padding rfl r.isCell
  unfold parseQuorumLine QuorumRow.line
  rw [hfields]
  simp [QuorumRow.cells, KRaftUnitStatus.ofText_text, parseInt_intText, QuorumRow.entry]

theorem parseQuorumLine_header (p : RowPadding) : parseQuorumLine (headerLine p) = none := by
  have hcells : ∀ s ∈ headerCells, IsCell s := by decide
  have hfields := fields_line p rfl hcells
  unfold parseQuorumLine headerLine
  rw [hfields]
  rfl

theorem parseQuorumLine_other {line : Str} (h : (line.splitOn '\t').length < 7) :
    parseQuorumLine line = none := by
  have hmissing : ((line.splitOn '\t').map strip)[6]? = none := by
    rw [List.getElem?_eq_none_iff, List.length_map]
    omega
  unfold parseQuorumLine
  simp only [hmissing]
  cases ((line.splitOn '\t').map strip)[1]? with
  | none => rfl
  | some directoryId =>
    cases ((line.splitOn '\t').map strip)[3]? with
    | none => rfl
    | some lag => rfl

theorem QuorumLine.lineFeed_notMem (l : QuorumLine) : '\n' ∉ l.text := by
  cases l with
  | row r => exact lineFeed_notMem_line r.padding r.isCell
  | header p => exact lineFeed_notMem_line p (by decide)
  | other l => exact l.no_lineFeed

theorem parseQuorumLine_text (l : QuorumLine) :
    parseQuorumLine l.text = l.row?.map QuorumRow.entry := by
  cases l with
  | row r => exact parseQuorumLine_row r
  | header p => exact parseQuorumLine_header p
  | other l => exact parseQuorumLine_other l.few

/-! ## The whole output -/

namespace QuorumOutput

variable (o : QuorumOutput)

theorem filterMap_lines :
    (o.text.splitOn '\n').filterMap parseQuorumLine = o.rows.map QuorumRow.entry := by
  have hlines : ∀ lines : List QuorumLine,
      (lines.map QuorumLine.text).filterMap parseQuorumLine =
        (lines.filterMap QuorumLine.row?).map QuorumRow.entry := by
    intro lines
    rw [List.filterMap_map, List.map_filterMap]
    exact List.filterMap_congr fun l _ => parseQuorumLine_text l
  unfold text rows
  by_cases hempty : o.lines = []
  · rw [hempty]
    rfl
  · rw [List.splitOn_intercalate, hlines]
    · intro s hs
      obtain ⟨l, -, rfl⟩ := List.mem_map.mp hs
      exact l.lineFeed_notMem
    · simpa using hempty

theorem keys_entries : Dict.keys (o.rows.map QuorumRow.entry) = o.rows.map QuorumRow.nodeId := by
  rw [Dict.keys, List.map_map]
  rfl

theorem quorumStatus_listing :
    quorumStatus (.listing o.text) = o.rows.map QuorumRow.entry := by
  have hnodup : Dict.NodupKeys (o.rows.map QuorumRow.entry) := by
    rw [Dict.NodupKeys, keys_entries]
    exact o.distinct
  have hupdate := Dict.update_of_notMem (d := []) hnodup fun k _ => List.not_mem_nil
  rw [quorumStatus, parseQuorum, filterMap_lines]
  exact hupdate

theorem mem_departingBrokers {query : QuorumQuery} {active : List Int} {id : Int} :
    id ∈ departingBrokers query active ↔ id ∈ onlineBrokers query ∧ id ∉ active := by
  unfold departingBrokers
  split
  · rename_i hnone
    rw [hnone]
    simp
  · rw [List.mem_filter, decide_eq_true_eq]

/-- A lag that the broker can report. -/
def IsLong (z : Int) : Prop := -2 ^ 63 ≤ z ∧ z < 2 ^ 63

theorem parseLagCol_intText {z : Int} (h : IsLong z) : parseLagCol (intText z) = z := by
  have hdigits : z.natAbs < 10 ^ PyRe.maxStrDigits := by
    calc z.natAbs < 10 ^ 19 := by
          obtain ⟨hlow, hhigh⟩ := h
          omega
      _ ≤ 10 ^ PyRe.maxStrDigits := Nat.pow_le_pow_right (by decide) (by decide)
  rw [parseLagCol, intLiteral_intText hdigits]
  rfl

/-- **The replication table.** Each row gives one entry with its directory id and status and
with its lag, or -1 where that is not a number, and no other line gives any. The brokers
that are online are the nodes from 100 on, and those of them depart that are not on the
relation. -/
theorem quorum_listing_read (active : List Int) :
    quorumStatus (.listing o.text) = o.rows.map QuorumRow.entry ∧
    (∀ r ∈ o.rows, Dict.get? (quorumStatus (.listing o.text)) r.nodeId =
      some ⟨r.directoryId.text, parseLagCol r.lag.text, r.status⟩) ∧
    (∀ r ∈ o.rows, (∀ z, IsLong z → r.lag.text = intText z → parseLagCol r.lag.text = z) ∧
      (intLiteral r.lag.text = none → parseLagCol r.lag.text = -1)) ∧
    (∀ id, id ∈ onlineBrokers (.listing o.text) ↔ 100 ≤ id ∧ ∃ r ∈ o.rows, r.nodeId = id) ∧
    ∀ id, id ∈ departingBrokers (.listing o.text) active ↔
      id ∈ onlineBrokers (.listing o.text) ∧ id ∉ active := by
  have hstatus := o.quorumStatus_listing
  refine ⟨hstatus, ?_, ?_, ?_, fun id => mem_departingBrokers⟩
  · intro r hr
    have hnodup : Dict.NodupKeys (o.rows.map QuorumRow.entry) := by
      rw [Dict.NodupKeys, keys_entries]
      exact o.distinct
    rw [hstatus]
    exact (Dict.mem_iff_get? hnodup).mp (List.mem_map_of_mem hr)
  · intro r _
    refine ⟨fun z hz htext => ?_, fun hnone => ?_⟩
    · rw [htext]
      exact parseLagCol_intText hz
    · rw [parseLagCol, hnone]
      rfl
  · intro id
    rw [onlineBrokers, hstatus, keys_entries, List.mem_filter, decide_eq_true_eq, List.mem_map,
      and_comm]
    rfl

/-! ## A leader and an observer -/

def sampleColumn (w : Str) (h : IsCell w) : Column := ⟨w, h.1, h.2.1, h.2.2⟩

def samplePadding : RowPadding := ⟨List.replicate 7 ⟨0, 2⟩, List.length_replicate⟩

/-- The row of a node under directory id `id`, with what stands in its lag column. -/
def sampleRow (nodeId : Int) (lag : Str) (h : IsCell lag) (status : KRaftUnitStatus) : QuorumRow where
  nodeId := nodeId
  directoryId := sampleColumn "id" (by decide)
  logEndOffset := sampleColumn "20" (by decide)
  lag := sampleColumn lag h
  lastFetchTimestamp := sampleColumn "1" (by decide)
  lastCaughtUpTimestamp := sampleColumn "1" (by decide)
  status := status
  padding := samplePadding

/-- A controller that leads and a broker whose lag is not known, below a warning. -/
def leaderAndObserver : QuorumOutput where
  lines :=
    [.other ⟨"WARN no config", by decide, by decide⟩, .header samplePadding,
      .row (sampleRow 0 "0" (by decide) .leader), .row (sampleRow 101 "?" (by decide) .observer)]
  distinct := by decide

theorem leaderAndObserver_read :
    quorumStatus (.listing leaderAndObserver.text) =
        [(0, ⟨"id", 0, .leader⟩), (101, ⟨"id", -1, .observer⟩)] ∧
      0 ∉ onlineBrokers (.listing leaderAndObserver.text) ∧
      101 ∈ departingBrokers (.listing leaderAndObserver.text) [100] := by
  obtain ⟨hstatus, -, -, honline, hdeparting⟩ := leaderAndObserver.quorum_listing_read [100]
  refine ⟨?_, ?_, ?_⟩
  · rw [hstatus]
    decide
  · rw [honline]
    omega
  · rw [hdeparting, honline]
    refine ⟨⟨by omega, sampleRow 101 "?" (by decide) .observer, ?_, rfl⟩, by decide⟩
    exact List.mem_cons_of_mem _ List.mem_cons_self

end QuorumOutput

end KafkaCharm
