/-
Heapusage.Log.Leaks — the leak details of `log_summary`.

§1 Reports   — what the `are lost` lines should be (`LeakReport`): one line for
               each callstack, with its bytes and blocks, in a strict order.
               There is only one such list of lines, whatever order the records
               come in (`LeakReport.unique`).
§2 Records   — what `log_event` keeps in `allocations` (`Recorded`).
§3 Grouping  — the first pass, one record at a time (`Grouped.insert`).
§4 Sorting   — the second pass: ascending sizes, and callstacks in their order
               within a size (`allocationsBySize_spec`).
§5 Printing  — the third pass drops nothing, and the report is a partition of
               the table (`leak_report_partition`).
-/
import Heapusage.Lib.Grouping
import Heapusage.Log.Ledger
import Mathlib.Data.List.Lex
import Mathlib.Data.List.TakeWhile

namespace Heapusage

open Grouping Runs Tables

/-! ## §1 Reports -/

/-- `%zu bytes in %d block(s) are lost`, and the callstack printed under it. -/
structure LeakLine where
  size : Nat
  count : Nat
  callstack : Callstack
  deriving DecidableEq, Repr

def HuAllocinfoT.line (a : HuAllocinfoT) : LeakLine where
  size := a.size
  count := a.count
  callstack := a.callstack

/-- What a summary prints. Of a lost record that is all but its pointer. -/
def Summary.printed (s : Summary) : Summary × List LeakLine :=
  ({ s with lost := [] }, s.lost.map HuAllocinfoT.line)

/-- The bytes the records of one callstack hold. -/
abbrev bytesAt (callstack : Callstack) (records : List HuAllocinfoT) : Nat :=
  total HuAllocinfoT.callstack HuAllocinfoT.size callstack records

/-- Their number. -/
abbrev blocksAt (callstack : Callstack) (records : List HuAllocinfoT) : Nat :=
  total HuAllocinfoT.callstack (fun _ => 1) callstack records

/-- Larger sizes come first, and within a size the larger callstack. -/
def LeakLine.Precedes (a b : LeakLine) : Prop :=
  b.size < a.size ∨ (b.size = a.size ∧ b.callstack < a.callstack)

/-- The lines are the partition of the records by callstack. -/
structure LeakReport (records : List HuAllocinfoT) (lines : List LeakLine) : Prop where
  /-- every callstack of a record has a line, and no other callstack has one -/
  complete : ∀ cs, cs ∈ lines.map LeakLine.callstack ↔ cs ∈ records.map HuAllocinfoT.callstack
  distinct : (lines.map LeakLine.callstack).Nodup
  bytes : ∀ line ∈ lines, line.size = bytesAt line.callstack records
  blocks : ∀ line ∈ lines, line.count = blocksAt line.callstack records
  ordered : lines.Pairwise LeakLine.Precedes

theorem LeakLine.precedes_asymm (a b : LeakLine) (h : a.Precedes b) : ¬ b.Precedes a := by
  rcases h with hlt | ⟨heq, hcs⟩
  · rintro (hgt | ⟨heq, -⟩)
    · exact absurd hlt hgt.asymm
    · exact absurd heq hlt.ne'
  · rintro (hgt | ⟨-, hcs'⟩)
    · exact absurd heq hgt.ne'
    · exact absurd hcs (lt_asymm hcs')

namespace LeakReport

variable {records records' : List HuAllocinfoT} {lines lines' : List LeakLine}

theorem mem_of_perm (h : LeakReport records lines) (h' : LeakReport records' lines')
    (hperm : records.Perm records') {line : LeakLine} (hline : line ∈ lines) : line ∈ lines' := by
  have hcs : line.callstack ∈ records'.map HuAllocinfoT.callstack := by
    rw [← (hperm.map HuAllocinfoT.callstack).mem_iff]
    exact (h.complete line.callstack).mp (List.mem_map_of_mem hline)
  obtain ⟨line', hline', heq⟩ := List.mem_map.mp ((h'.complete line.callstack).mpr hcs)
  have hsize : line.size = line'.size := by
    rw [h.bytes line hline, h'.bytes line' hline', heq]
    exact total_perm _ _ _ hperm
  have hcount : line.count = line'.count := by
    rw [h.blocks line hline, h'.blocks line' hline', heq]
    exact total_perm _ _ _ hperm
  have hsame : line = line' := by
    cases line
    cases line'
    simp only [LeakLine.mk.injEq]
    exact ⟨hsize, hcount, heq.symm⟩
  rwa [hsame]

/-- **There is one report**, in whatever order the records come. -/
theorem unique (h : LeakReport records lines) (h' : LeakReport records' lines')
    (hperm : records.Perm records') : lines = lines' :=
  eq_of_pairwise_of_mem_iff LeakLine.precedes_asymm h.ordered h'.ordered fun _ =>
    ⟨h.mem_of_perm h' hperm, h'.mem_of_perm h hperm.symm⟩

theorem of_perm (h : LeakReport records lines) (hperm : records.Perm records') :
    LeakReport records' lines where
  complete cs := by rw [h.complete cs, (hperm.map HuAllocinfoT.callstack).mem_iff]
  distinct := h.distinct
  bytes line hline := by
    rw [h.bytes line hline]
    exact total_perm _ _ _ hperm
  blocks line hline := by
    rw [h.blocks line hline]
    exact total_perm _ _ _ hperm
  ordered := h.ordered

/-- A figure that every line takes from the records of its callstack adds up to
that of all records. -/
theorem sum_figure (h : LeakReport records lines) {figure : LeakLine → Nat}
    {weight : HuAllocinfoT → Nat}
    (hfigure : ∀ line ∈ lines,
      figure line = total HuAllocinfoT.callstack weight line.callstack records) :
    (lines.map figure).sum = (records.map weight).sum := by
  have hmap : lines.map figure = (lines.map LeakLine.callstack).map fun cs =>
      total HuAllocinfoT.callstack weight cs records := by
    rw [List.map_map]
    exact List.map_congr_left hfigure
  rw [hmap]
  exact sum_total h.distinct fun a ha => (h.complete a.callstack).mpr (List.mem_map_of_mem ha)

theorem sum_size (h : LeakReport records lines) :
    (lines.map LeakLine.size).sum = (records.map HuAllocinfoT.size).sum := h.sum_figure h.bytes

theorem sum_count (h : LeakReport records lines) :
    (lines.map LeakLine.count).sum = records.length := by
  rw [h.sum_figure h.blocks]
  simp

end LeakReport

/-! ## §2 Records -/

/-- Every record is one block of at least the minimum size. -/
def Recorded (c : LogConfig) (records : List HuAllocinfoT) : Prop :=
  ∀ a ∈ records, a.count = 1 ∧ c.huLogMinleak ≤ a.size

instance (c : LogConfig) (records : List HuAllocinfoT) : Decidable (Recorded c records) :=
  inferInstanceAs (Decidable (∀ a ∈ records, _))

theorem Recorded.next {c : LogConfig} {l : LogState} (h : Recorded c (values l.allocations))
    (i : LogInput) : Recorded c (values (logNext c l i).allocations) := by
  intro a ha
  obtain ⟨q, hq⟩ := mem_values.mp ha
  by_cases hon : l.loggingEnabled = true
  · cases hevent : i.event with
    | malloc =>
      rw [logNext_malloc hon hevent, logMalloc_allocations] at hq
      split at hq
      · rename_i hmin
        rcases lookup_insert_eq_some.mp hq with ⟨-, rfl⟩ | ⟨-, hold⟩
        · exact ⟨rfl, hmin⟩
        · exact h a (mem_values_of_lookup hold)
      · exact h a (mem_values_of_lookup hq)
    | free =>
      rw [logNext_free hon hevent, logFree_allocations] at hq
      exact h a (mem_values_of_lookup (lookup_erase_eq_some.mp hq).2)
  · have hoff : logNext c l i = l := if_neg hon
    rw [hoff] at hq
    exact h a (mem_values_of_lookup hq)

/-- **Every run of `log_event` keeps it.** -/
theorem recorded_run (c : LogConfig) (is : List LogInput) :
    Recorded c (values (exec (logNext c) logStart is).allocations) := by
  have hstep : ∀ l i, Recorded c (values l.allocations) →
      Recorded c (values (logNext c l i).allocations) := fun _ i h => h.next i
  exact exec_invariant hstep is logStart fun a ha => absurd ha List.not_mem_nil

/-! ## §3 Grouping -/

/-- What a group becomes by one record more. -/
def HuAllocinfoT.joined (it g : HuAllocinfoT) : HuAllocinfoT :=
  { g with count := g.count + 1, size := Words.add 64 g.size it.size }

/-- The grouping pass adds to the group of the callstack, or opens one. -/
theorem groupInsert_eq_absorb (it : HuAllocinfoT) (groups : List (Callstack × HuAllocinfoT)) :
    groupInsert it groups = absorb it.callstack it it.joined groups := by
  induction groups with
  | nil => rfl
  | cons g rest ih =>
    by_cases hk : it.callstack = g.1
    · rw [groupInsert, absorb, if_pos hk, if_pos hk, HuAllocinfoT.joined]
    · rw [groupInsert, absorb, if_neg hk, if_neg hk]
      by_cases hlt : it.callstack < g.1
      · exact (if_pos hlt).trans (if_pos hlt).symm
      · rw [ih]
        exact (if_neg hlt).trans (if_neg hlt).symm

/-- The group of a callstack among the records seen so far. -/
structure IsGroup (seen : List HuAllocinfoT) (g : Callstack × HuAllocinfoT) : Prop where
  callstack : g.2.callstack = g.1
  bytes : g.2.size = bytesAt g.1 seen
  blocks : g.2.count = blocksAt g.1 seen

namespace IsGroup

variable {seen : List HuAllocinfoT} {it : HuAllocinfoT}

/-- A record of another callstack. -/
theorem other {g : Callstack × HuAllocinfoT} (h : IsGroup seen g) (hcs : g.1 ≠ it.callstack) :
    IsGroup (seen ++ [it]) g where
  callstack := h.callstack
  bytes := by simp [h.bytes, total_concat, hcs.symm]
  blocks := by simp [h.blocks, total_concat, hcs.symm]

/-- A record of its callstack. The sum does not wrap. -/
theorem join {g : HuAllocinfoT} (h : IsGroup seen (it.callstack, g))
    (hfit : bytesAt it.callstack (seen ++ [it]) < 2 ^ 64) :
    IsGroup (seen ++ [it]) (it.callstack, it.joined g) where
  callstack := h.callstack
  bytes := by
    have hold : g.size = bytesAt it.callstack seen := h.bytes
    have hnew : bytesAt it.callstack (seen ++ [it]) = g.size + it.size := by
      simp [hold, total_concat]
    rw [hnew] at hfit ⊢
    exact Words.add_eq hfit
  blocks := by
    have hold : g.count = blocksAt it.callstack seen := h.blocks
    simp [HuAllocinfoT.joined, hold, total_concat]

/-- The first record of its callstack. -/
theorem opened (hone : it.count = 1) (hnew : ∀ a ∈ seen, a.callstack ≠ it.callstack) :
    IsGroup (seen ++ [it]) (it.callstack, it) where
  callstack := rfl
  bytes := by simp [total_concat, total_of_absent _ _ hnew]
  blocks := by simp [total_concat, total_of_absent _ _ hnew, hone]

end IsGroup

/-- The groups of the records seen so far, in the order of their callstacks. -/
structure Grouped (seen : List HuAllocinfoT) (groups : List (Callstack × HuAllocinfoT)) :
    Prop where
  sorted : groups.Pairwise fun g g' => g.1 < g'.1
  complete : ∀ cs, cs ∈ groups.map Prod.fst ↔ cs ∈ seen.map HuAllocinfoT.callstack
  groups : ∀ g ∈ groups, IsGroup seen g

namespace Grouped

variable {seen : List HuAllocinfoT} {groups : List (Callstack × HuAllocinfoT)} {it : HuAllocinfoT}

theorem nil : Grouped [] [] := ⟨List.Pairwise.nil, by simp, by simp⟩

/-- **One record more.** -/
theorem insert (h : Grouped seen groups) (hone : it.count = 1)
    (hfit : ((seen ++ [it]).map HuAllocinfoT.size).sum < 2 ^ 64) :
    Grouped (seen ++ [it]) (groupInsert it groups) := by
  rw [groupInsert_eq_absorb]
  refine ⟨pairwise_absorb h.sorted, ?_, ?_⟩
  · intro cs
    rw [mem_keys_absorb, h.complete cs]
    simp [or_comm]
  · intro g hg
    rcases mem_absorb h.sorted hg with ⟨hold, hcs⟩ | ⟨g', hg', rfl⟩ | ⟨hnew, rfl⟩
    · exact (h.groups g hold).other hcs
    · exact (h.groups _ hg').join ((total_le _ _ it.callstack _).trans_lt hfit)
    · refine IsGroup.opened hone ?_
      intro a ha heq
      exact hnew ((h.complete it.callstack).mpr (heq ▸ List.mem_map_of_mem ha))

/-- A group is at least as large as any of its records. -/
theorem minleak_le (h : Grouped seen groups) {c : LogConfig} (hrec : Recorded c seen)
    {g : Callstack × HuAllocinfoT} (hg : g ∈ groups) : c.huLogMinleak ≤ g.2.size := by
  obtain ⟨a, ha, hcs⟩ := List.mem_map.mp ((h.complete g.1).mp (List.mem_map_of_mem hg))
  have hle : a.size ≤ bytesAt a.callstack seen := le_total _ _ ha
  rw [(h.groups g hg).bytes, ← hcs]
  exact (hrec a ha).2.trans hle

/-- The groups make the report, once they are in order. -/
theorem report (h : Grouped seen groups) {sorted : List HuAllocinfoT}
    (hperm : sorted.Perm (groups.map Prod.snd))
    (hordered : (sorted.map HuAllocinfoT.line).Pairwise LeakLine.Precedes) :
    LeakReport seen (sorted.map HuAllocinfoT.line) := by
  have hcallstacks : ((sorted.map HuAllocinfoT.line).map LeakLine.callstack).Perm
      (groups.map Prod.fst) := by
    have hkeys : (groups.map Prod.snd).map HuAllocinfoT.callstack = groups.map Prod.fst := by
      rw [List.map_map]
      exact List.map_congr_left fun g hg => (h.groups g hg).callstack
    rw [List.map_map, ← hkeys]
    exact hperm.map HuAllocinfoT.callstack
  have hgroup : ∀ line ∈ sorted.map HuAllocinfoT.line,
      line.size = bytesAt line.callstack seen ∧ line.count = blocksAt line.callstack seen := by
    intro line hline
    obtain ⟨a, ha, rfl⟩ := List.mem_map.mp hline
    obtain ⟨g, hg, rfl⟩ := List.mem_map.mp (hperm.mem_iff.mp ha)
    have hcs : g.2.line.callstack = g.1 := (h.groups g hg).callstack
    rw [hcs]
    exact ⟨(h.groups g hg).bytes, (h.groups g hg).blocks⟩
  refine ⟨?_, ?_, ?_, ?_, hordered⟩
  · intro cs
    rw [hcallstacks.mem_iff, h.complete cs]
  · have hnodup : (groups.map Prod.fst).Nodup := List.pairwise_map.mpr (h.sorted.imp ne_of_lt)
    exact hcallstacks.nodup_iff.mpr hnodup
  · exact fun line hline => (hgroup line hline).1
  · exact fun line hline => (hgroup line hline).2

end Grouped

/-- **The grouping pass** over all records. -/
theorem allocationsByCallstack_grouped {order : List HuAllocinfoT}
    (hone : ∀ a ∈ order, a.count = 1) (hfit : (order.map HuAllocinfoT.size).sum < 2 ^ 64) :
    Grouped order (allocationsByCallstack order) := by
  induction order using List.reverseRecOn with
  | nil => exact Grouped.nil
  | append_singleton seen it ih =>
    have hstep : allocationsByCallstack (seen ++ [it]) =
        groupInsert it (allocationsByCallstack seen) := List.foldl_append ..
    have hseen : (seen.map HuAllocinfoT.size).sum < 2 ^ 64 := by
      rw [List.map_append, List.sum_append] at hfit
      omega
    rw [hstep]
    exact (ih (fun a ha => hone a (List.mem_append_left [it] ha)) hseen).insert
      (hone it (by simp)) hfit

/-! ## §4 Sorting -/

theorem sizeInsert_eq_orderedInsert (it : HuAllocinfoT) (sorted : List HuAllocinfoT) :
    sizeInsert it sorted = sorted.orderedInsert (fun a b => a.size < b.size) it := by
  induction sorted with
  | nil => rfl
  | cons g rest ih => simp only [sizeInsert, List.orderedInsert_cons, ih]

/-- **The sorting pass** loses no group. It is stable, so that groups of one size
stay in the order of their callstacks. -/
theorem allocationsBySize_spec {groups : List (Callstack × HuAllocinfoT)}
    (hsorted : groups.Pairwise fun g g' => g.1 < g'.1)
    (hkey : ∀ g ∈ groups, g.2.callstack = g.1) :
    (allocationsBySize groups).Perm (groups.map Prod.snd) ∧
    (allocationsBySize groups).Pairwise fun a b =>
      a.size < b.size ∨ (a.size = b.size ∧ a.callstack < b.callstack) := by
  induction groups using List.reverseRecOn with
  | nil => exact ⟨List.Perm.nil, List.Pairwise.nil⟩
  | append_singleton groups g ih =>
    obtain ⟨hold, -, hlast⟩ := List.pairwise_append.mp hsorted
    obtain ⟨hperm, hpair⟩ := ih hold fun g' hg' => hkey g' (List.mem_append_left [g] hg')
    have hstep : allocationsBySize (groups ++ [g]) =
        (allocationsBySize groups).orderedInsert (fun a b => a.size < b.size) g.2 := by
      rw [← sizeInsert_eq_orderedInsert]
      exact List.foldl_append ..
    rw [hstep]
    constructor
    · rw [List.map_append]
      exact (List.perm_orderedInsert _ g.2 _).trans
        ((hperm.cons g.2).trans (List.perm_append_singleton _ _).symm)
    · refine pairwise_arrival hpair ?_
      intro a ha
      obtain ⟨g', hg', rfl⟩ := List.mem_map.mp (hperm.mem_iff.mp ha)
      rw [hkey g' (List.mem_append_left [g] hg'), hkey g (by simp)]
      exact hlast g' hg' g (by simp)

/-! ## §5 Printing -/

/-- An allocation callstack is always printed. -/
theorem logIsValidCallstack_alloc (c : LogConfig) (callstack : Callstack) :
    logIsValidCallstack c callstack true = true := by
  simp [logIsValidCallstack]

/-- The printing loop stops nowhere and skips nothing: it goes over all groups,
the largest first. -/
theorem lostEntries_eq {c : LogConfig} {order : List HuAllocinfoT}
    (hgroup : ∀ g ∈ allocationsByCallstack order, c.huLogMinleak ≤ g.2.size)
    (hperm : (allocationsBySize (allocationsByCallstack order)).Perm
      ((allocationsByCallstack order).map Prod.snd)) :
    lostEntries c order = (allocationsBySize (allocationsByCallstack order)).reverse := by
  have hmin : ∀ a ∈ (allocationsBySize (allocationsByCallstack order)).reverse,
      decide (c.huLogMinleak ≤ a.size) = true := by
    intro a ha
    obtain ⟨g, hg, rfl⟩ := List.mem_map.mp (hperm.mem_iff.mp (List.mem_reverse.mp ha))
    exact decide_eq_true (hgroup g hg)
  rw [lostEntries, List.takeWhile_eq_self_iff.mpr hmin]
  exact List.filter_eq_self.mpr fun a _ => logIsValidCallstack_alloc c a.callstack

/-- **The three passes** make the report of the records. -/
theorem lostEntries_report {c : LogConfig} {order : List HuAllocinfoT} (hrec : Recorded c order)
    (hfit : (order.map HuAllocinfoT.size).sum < 2 ^ 64) :
    lostEntries c order = (allocationsBySize (allocationsByCallstack order)).reverse ∧
      LeakReport order ((lostEntries c order).map HuAllocinfoT.line) := by
  have hgrouped : Grouped order (allocationsByCallstack order) :=
    allocationsByCallstack_grouped (fun a ha => (hrec a ha).1) hfit
  obtain ⟨hperm, hpair⟩ := allocationsBySize_spec hgrouped.sorted
    fun g hg => (hgrouped.groups g hg).callstack
  have hlost : lostEntries c order =
      (allocationsBySize (allocationsByCallstack order)).reverse :=
    lostEntries_eq (fun _ hg => hgrouped.minleak_le hrec hg) hperm
  refine ⟨hlost, ?_⟩
  rw [hlost]
  refine hgrouped.report ((List.reverse_perm _).trans hperm) ?_
  rw [List.pairwise_map, List.pairwise_reverse]
  exact hpair

/-- A summary's lost lines, in any order of the table. -/
theorem summaryOf_lost {c : LogConfig} {l : LogState} (hleak : c.huLeak = true)
    (hrec : Recorded c (values l.allocations)) (hbytes : l.liveBytes < 2 ^ 64)
    (ondemand evicted : Bool) {order : List HuAllocinfoT}
    (hperm : order.Perm (values l.allocations)) :
    (summaryOf c ondemand evicted order l).lost =
        (allocationsBySize (allocationsByCallstack order)).reverse ∧
      LeakReport (values l.allocations)
        ((summaryOf c ondemand evicted order l).lost.map HuAllocinfoT.line) := by
  have hlost : (summaryOf c ondemand evicted order l).lost = lostEntries c order := if_pos hleak
  have hrec' : Recorded c order := fun a ha => hrec a (hperm.mem_iff.mp ha)
  have hfit : (order.map HuAllocinfoT.size).sum < 2 ^ 64 := by
    rw [(hperm.map HuAllocinfoT.size).sum_eq]
    exact hbytes
  obtain ⟨hall, hlines⟩ := lostEntries_report hrec' hfit
  rw [hlost]
  exact ⟨hall, hlines.of_perm hperm⟩

/-- **The leak report**, for every table of records as `log_event` makes them,
in whatever order the table is gone through: one line for each callstack with
its bytes and its blocks, the largest first and larger callstacks first within a
size. No group is cut off or skipped, and the lines add up to the bytes and
blocks in use, which are also the figures of `definitely lost`. That is what
`log_summary` writes, if the file is open. -/
theorem leak_report_partition (c : LogConfig) (l : LogState) (hleak : c.huLeak = true)
    (hrec : Recorded c (values l.allocations)) (hbytes : l.liveBytes < 2 ^ 64)
    (hblocks : ∀ cs, blocksAt cs (values l.allocations) < 2 ^ 31) (ondemand evicted : Bool)
    (order : List HuAllocinfoT) (hperm : order.Perm (values l.allocations)) :
    let s := summaryOf c ondemand evicted order l
    let lines := s.lost.map HuAllocinfoT.line
    LeakReport (values l.allocations) lines ∧
    (∀ line ∈ lines, line.size < 2 ^ 64 ∧ line.count < 2 ^ 31) ∧
    s.lost = (allocationsBySize (allocationsByCallstack order)).reverse ∧
    (lines.map LeakLine.size).sum = s.inUseBytes.toNat ∧
    (lines.map LeakLine.count).sum = (values l.allocations).length ∧
    s.inUseBlocks = UInt64.ofNat (values l.allocations).length ∧
    (logSummary c ondemand evicted order l).logFile =
      (if c.logWritable then .summary s :: l.logFile else l.logFile) ∧
    ∀ order' : List HuAllocinfoT, order'.Perm (values l.allocations) →
      (summaryOf c ondemand evicted order' l).printed = s.printed := by
  obtain ⟨hall, hlines⟩ := summaryOf_lost hleak hrec hbytes ondemand evicted hperm
  obtain ⟨huse, huseBlocks⟩ := summaryOf_inUse_of_perm c ondemand evicted hperm
  refine ⟨hlines, ?_, hall, ?_, hlines.sum_count, huseBlocks, ?_, ?_⟩
  · intro line hline
    rw [hlines.bytes line hline, hlines.blocks line hline]
    exact ⟨(total_le _ _ line.callstack _).trans_lt hbytes, hblocks line.callstack⟩
  · rw [huse, hlines.sum_size]
    exact (UInt64.toNat_ofNat_of_lt' hbytes).symm
  · unfold logSummary
    split <;> rfl
  · intro order' hperm'
    obtain ⟨-, hlines'⟩ := summaryOf_lost hleak hrec hbytes ondemand evicted hperm'
    obtain ⟨huse', huseBlocks'⟩ := summaryOf_inUse_of_perm c ondemand evicted hperm'
    have hsame : (summaryOf c ondemand evicted order' l).lost.map HuAllocinfoT.line =
        (summaryOf c ondemand evicted order l).lost.map HuAllocinfoT.line :=
      hlines'.unique hlines (List.Perm.refl _)
    have hrest : { summaryOf c ondemand evicted order' l with lost := [] } =
        { summaryOf c ondemand evicted order l with lost := [] } := by
      rw [Summary.mk.injEq]
      exact ⟨rfl, rfl, huse'.trans huse.symm, huseBlocks'.trans huseBlocks.symm, rfl, rfl, rfl, rfl,
        rfl, rfl⟩
    exact Prod.ext hrest hsame

/-- The leak tool, and every size is tracked. -/
def leakLog : LogConfig := { plainLog with huLeak := true }

/-- Four blocks of three callstacks, two of which lose twelve bytes each: the
larger callstack comes first, though it comes last in the map. -/
theorem leak_report_partition_four :
    let is : List LogInput := [⟨.malloc, 64, 8, [1, 2]⟩, ⟨.malloc, 128, 12, [1, 3]⟩,
      ⟨.malloc, 192, 4, [1, 2]⟩, ⟨.malloc, 256, 1, [1, 2, 5]⟩]
    let l := exec (logNext leakLog) logStart is
    ∃ s : Summary, (logSummary leakLog false false (values l.allocations) l).logFile =
        [.summary s] ∧
      s.lost.map HuAllocinfoT.line = [⟨12, 1, [1, 3]⟩, ⟨12, 2, [1, 2]⟩, ⟨1, 1, [1, 2, 5]⟩] ∧
      LeakReport (values l.allocations) (s.lost.map HuAllocinfoT.line) ∧
      s.inUseBytes.toNat = 25 := by
  intro is l
  have hfew : ∀ cs, blocksAt cs (values l.allocations) < 2 ^ 31 := fun cs =>
    (total_le _ _ cs _).trans_lt (by decide)
  obtain ⟨hreport, -, -, hbytes, -, -, hfile, -⟩ := leak_report_partition leakLog l rfl
    (recorded_run leakLog is) (by decide) hfew false false (values l.allocations)
    (List.Perm.refl _)
  have hlines : (summaryOf leakLog false false (values l.allocations) l).lost.map
      HuAllocinfoT.line = [⟨12, 1, [1, 3]⟩, ⟨12, 2, [1, 2]⟩, ⟨1, 1, [1, 2, 5]⟩] := by decide
  refine ⟨_, hfile, hlines, hreport, ?_⟩
  rw [hlines] at hbytes
  exact hbytes.symm

end Heapusage
