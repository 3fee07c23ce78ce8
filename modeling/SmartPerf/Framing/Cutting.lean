import Mathlib.Data.List.SplitLengths
import SmartPerf.Framing.Calls

namespace SmartPerf.Framing

open List

/-! A file that arrives in chunks: which cuts let the parser hand everything on. -/

/-- Chunk by chunk: each standalone section takes a chunk for itself, as a call returns
behind its body. -/
def Keeps (start total : Nat) : List Nat → List Nat → Prop
  | [], [] => start = total
  | [], _ :: _ => True
  | _ :: _, [] => False
  | finish :: later, arrived :: arrivals =>
    if finish ≤ arrived then Keeps finish total later arrivals else Keeps start total (finish :: later) arrivals

def chunkEnds (received : Nat) : List (List UInt8) → List Nat
  | [] => []
  | chunk :: rest => (received + chunk.length) :: chunkEnds (received + chunk.length) rest

def trailing (start total : Nat) (ends : List Nat) : Nat := if ends.getLastD start < total then 1 else 0

/-- Among the chunks that end at or behind its last byte, each standalone section finds
one for itself, one for each standalone section behind it, and `spare` more. -/
def Paced (spare : Nat) (arrivals : List Nat) : List Nat → Prop
  | [] => True
  | finish :: later => later.length + 1 + spare ≤ arrivals.countP (finish ≤ ·) ∧ Paced spare arrivals later

instance decidablePaced (spare : Nat) (arrivals ends : List Nat) : Decidable (Paced spare arrivals ends) :=
  match ends with
  | [] => .isTrue trivial
  | _ :: later => @instDecidableAnd _ _ _ (decidablePaced spare arrivals later)

section Keeps

variable {start total spare arrived finish : Nat} {ends later arrivals : List Nat}

theorem keeps_start (other : Nat) :
    Keeps start total (finish :: later) arrivals ↔ Keeps other total (finish :: later) arrivals := by
  induction arrivals with
  | nil => rfl
  | cons arrived arrivals ih =>
    simp only [Keeps]
    split
    · rfl
    · exact ih

theorem paced_cons_of_paced (paced : Paced spare arrivals ends) : Paced spare (arrived :: arrivals) ends := by
  induction ends with
  | nil => trivial
  | cons finish later ih =>
    obtain ⟨enough, paced⟩ := paced
    refine ⟨le_trans enough ?_, ih paced⟩
    exact (sublist_cons_self arrived arrivals).countP_le

theorem paced_cons_of_early (early : ∀ finish ∈ ends, arrived < finish) :
    Paced spare (arrived :: arrivals) ends ↔ Paced spare arrivals ends := by
  induction ends with
  | nil => rfl
  | cons finish later ih =>
    have before := early finish (mem_cons_self ..)
    simp only [Paced, ih (forall_mem_of_forall_mem_cons early)]
    rw [countP_cons_of_neg (by simpa using before)]

theorem paced_of_paced_cons (ordered : ∀ next ∈ arrivals, arrived ≤ next)
    (enough : ends.length + spare ≤ arrivals.length) (paced : Paced spare (arrived :: arrivals) ends) :
    Paced spare arrivals ends := by
  induction ends with
  | nil => trivial
  | cons finish later ih =>
    obtain ⟨found, paced⟩ := paced
    rw [length_cons] at enough
    refine ⟨?_, ih (by omega) paced⟩
    by_cases early : finish ≤ arrived
    · have every : arrivals.countP (finish ≤ ·) = arrivals.length := by
        rw [countP_eq_length]
        intro next member
        have bound := ordered next member
        simp only [decide_eq_true_eq]
        omega
      omega
    · rwa [countP_cons_of_neg (by simpa using early)] at found

theorem paced_cons_iff (ordered : ∀ next ∈ arrivals, arrived ≤ next) (reached : finish ≤ arrived) :
    Paced spare (arrived :: arrivals) (finish :: later) ↔
      later.length + spare ≤ arrivals.length ∧ Paced spare arrivals later := by
  have every : (arrived :: arrivals).countP (finish ≤ ·) = arrivals.length + 1 := by
    rw [countP_cons_of_pos (by simpa using reached), Nat.add_right_cancel_iff, countP_eq_length]
    intro next member
    have bound := ordered next member
    simp only [decide_eq_true_eq]
    omega
  constructor
  · intro ⟨enough, paced⟩
    have enough : later.length + spare ≤ arrivals.length := by omega
    exact ⟨enough, paced_of_paced_cons ordered enough paced⟩
  · intro ⟨enough, paced⟩
    exact ⟨by omega, paced_cons_of_paced paced⟩

theorem Paced.length_le (paced : Paced spare arrivals (finish :: later)) :
    (finish :: later).length + spare ≤ arrivals.length := by
  have found := paced.1
  have bound := countP_le_length (p := (finish ≤ ·)) (l := arrivals)
  rw [length_cons]
  omega

theorem keeps_iff_paced (increasing : ends.Pairwise (· ≤ ·)) (ordered : arrivals.Pairwise (· ≤ ·))
    (inside : ∀ finish ∈ ends, finish ≤ total) :
    Keeps start total ends arrivals ↔
      Paced (trailing start total ends) arrivals ends ∧ (ends = [] → arrivals = [] → start = total) := by
  induction arrivals generalizing start ends with
  | nil =>
    cases ends with
    | nil => simp [Keeps, Paced]
    | cons finish later => simp [Keeps, Paced]
  | cons arrived arrivals ih =>
    rw [pairwise_cons] at ordered
    cases ends with
    | nil => simp [Keeps, Paced]
    | cons finish later =>
      have laterIncreasing := (pairwise_cons.mp increasing).2
      have laterInside := forall_mem_of_forall_mem_cons inside
      simp only [Keeps, reduceCtorEq, false_implies, and_true]
      split
      case isTrue reached =>
        rw [ih laterIncreasing ordered.2 laterInside, paced_cons_iff ordered.1 reached]
        have same : trailing start total (finish :: later) = trailing finish total later := by
          simp only [trailing, getLastD_cons]
        rw [same, and_comm]
        refine and_congr_left fun paced => ?_
        -- with sections to come the pace of the next one gives the bound
        cases later with
        | cons next later => simpa using paced.length_le
        | nil =>
          have bound := inside finish (mem_cons_self ..)
          by_cases followed : finish < total
          · cases arrivals <;> simp [trailing, followed]
            omega
          · have complete : finish = total := by omega
            simp [trailing, complete]
      case isFalse missed =>
        have early : ∀ other ∈ finish :: later, arrived < other := by
          intro other member
          rcases mem_cons.mp member with rfl | member
          · omega
          · have bound := (pairwise_cons.mp increasing).1 other member
            omega
        rw [ih increasing ordered.2 inside, paced_cons_of_early early]
        simp

end Keeps

section Chunks

variable {future : List UInt8} {all : List Handed} {received start : Nat} {ends : List Nat}
  {parser : PbreaderParser} {position : Position}

theorem Resting.total (resting : Resting future all received ends parser position start) :
    start + position.bytes.length = received + future.length := by
  have arrived := resting.arrived
  rw [← resting.unread]
  simp only [drop_zero, length_append] at arrived ⊢
  omega

theorem Resting.stuck_finished (resting : Resting [] all received ends parser position start)
    (stuck : position.Stuck parser.packagesBuffer.length) : position = .between [] := by
  have unread := resting.unread
  simp only [drop_zero, append_nil] at unread
  rw [unread] at stuck
  exact stuck.finished

theorem Resting.parseChunks (chunks : List (List UInt8))
    (resting : Resting chunks.flatten all received ends parser position start)
    (settled : position.Stuck parser.packagesBuffer.length ∨ ∃ rest, position = .between rest) :
    ∃ after, parseChunks parser chunks = some after ∧
      ((after.handed = all ∧ after.packagesBuffer = []) ↔
        Keeps start (received + chunks.flatten.length) ends (chunkEnds received chunks)) := by
  induction chunks generalizing parser received ends position start with
  | nil =>
    have total := resting.total
    have endsHere := resting.standalones
    refine ⟨parser, rfl, ?_⟩
    rw [resting.complete_iff]
    simp only [chunkEnds, ← total]
    constructor
    · intro finished
      subst finished
      subst endsHere
      simp [Position.ends, standaloneEnds, Keeps, Position.bytes, fileBytes]
    · intro keeps
      rcases settled with stuck | ⟨rest, rfl⟩
      · exact resting.stuck_finished stuck
      cases rest with
      | nil => rfl
      | cons entry rest =>
        have bytes := entry.bytes_length
        cases ends with
        | cons finish later => exact keeps.elim
        | nil =>
          simp only [Keeps, Position.bytes, fileBytes, flatMap_cons, length_append] at keeps
          simp only [packetHeaderLength] at bytes
          omega
  | cons chunk chunks ih =>
    obtain ⟨between, parsed, outcome⟩ := resting.parseTraceDataSegment
    have sum : received + (chunk :: chunks).flatten.length = received + chunk.length + chunks.flatten.length := by
      simp [Nat.add_assoc]
    simp only [Framing.parseChunks, parsed, Option.bind_some, chunkEnds, sum]
    rcases outcome with ⟨position, start', resting, stuck⟩ | ⟨rest, finish, later, split, resting⟩
    · obtain ⟨after, parsedRest, complete⟩ := ih resting (.inl stuck)
      refine ⟨after, parsedRest, complete.trans ?_⟩
      have arrived := resting.arrived
      simp only at arrived
      cases ends with
      | cons finish later =>
        have beyond := stuck.ends_beyond finish (by rw [resting.standalones]; exact mem_cons_self ..)
        rw [Keeps, if_neg (by omega)]
        exact keeps_start start
      | nil =>
        cases chunks with
        | cons next chunks => simp [chunkEnds, Keeps]
        | nil =>
          have finished := resting.stuck_finished stuck
          have total := resting.total
          subst finished
          simpa [chunkEnds, Keeps, Position.bytes, fileBytes] using total
    · obtain ⟨after, parsedRest, complete⟩ := ih resting (.inr ⟨rest, rfl⟩)
      refine ⟨after, parsedRest, complete.trans ?_⟩
      have arrived := resting.arrived
      simp only at arrived
      rw [split, Keeps, if_pos (by omega)]

theorem Resting.parseChunks_sizes (sizes : List Nat) {bytes : List UInt8}
    (resting : Resting bytes all received ends parser position start) :
    ∃ after, Framing.parseChunks parser (sizes.splitLengths bytes) = some after ∧ after.handed <+: all := by
  induction sizes generalizing bytes parser received ends position start with
  | nil => exact ⟨parser, rfl, position.items, resting.items⟩
  | cons size sizes ih =>
    rw [← take_append_drop size bytes] at resting
    obtain ⟨between, parsed, outcome⟩ := resting.parseTraceDataSegment
    rw [splitLengths_cons, Framing.parseChunks, parsed, Option.bind_some]
    rcases outcome with ⟨_, _, resting, -⟩ | ⟨_, _, _, -, resting⟩
    · exact ih resting
    · exact ih resting

end Chunks

theorem standaloneEnds_pairwise (start : Nat) (sections : List Section) :
    (standaloneEnds start sections).Pairwise (· ≤ ·) := by
  induction sections generalizing start with
  | nil => exact List.Pairwise.nil
  | cons entry rest ih =>
    simp only [standaloneEnds]
    split
    · refine pairwise_cons.mpr ⟨fun finish member => ?_, ih _⟩
      have bound := Position.standaloneEnds_beyond _ rest finish member
      omega
    · exact ih _

theorem standaloneEnds_inside (start : Nat) (sections : List Section) :
    ∀ finish ∈ standaloneEnds start sections, finish ≤ start + (fileBytes sections).length := by
  induction sections generalizing start with
  | nil => simp [standaloneEnds]
  | cons entry rest ih =>
    intro finish member
    have later := ih (start + entry.bytes.length) finish
    simp only [fileBytes, flatMap_cons, length_append] at later ⊢
    simp only [standaloneEnds] at member
    split at member
    · rcases mem_cons.mp member with rfl | member
      · omega
      · have bound := later member
        omega
    · have bound := later member
      omega

theorem chunkEnds_ge (received : Nat) (chunks : List (List UInt8)) :
    ∀ arrived ∈ chunkEnds received chunks, received ≤ arrived := by
  induction chunks generalizing received with
  | nil => simp [chunkEnds]
  | cons chunk rest ih =>
    intro arrived member
    rcases mem_cons.mp member with rfl | member
    · omega
    · have bound := ih _ arrived member
      omega

theorem chunkEnds_pairwise (received : Nat) (chunks : List (List UInt8)) :
    (chunkEnds received chunks).Pairwise (· ≤ ·) := by
  induction chunks generalizing received with
  | nil => exact List.Pairwise.nil
  | cons chunk rest ih => exact pairwise_cons.mpr ⟨chunkEnds_ge _ rest, ih _⟩

theorem resting_start (sections : List Section) :
    Resting (fileBytes sections) (fileItems sections) 0 (standaloneEnds 0 sections) {} (.between sections) 0 :=
  ⟨⟨rfl, rfl⟩, rfl, rfl, rfl, rfl, rfl⟩

/-- For every well-formed file and every cut of it, each segment and standalone body is
handed on once and in order, with nothing left over, exactly if the cut gives each
standalone section the chunks it needs: the call that completes a standalone body returns
without looking at the bytes behind it, so these wait for another chunk. -/
theorem framing_complete_iff_paced (sections : List Section) (chunks : List (List UInt8))
    (cut : chunks.flatten = fileBytes sections) :
    (∃ parser, parseChunks {} chunks = some parser ∧ parser.handed = fileItems sections ∧ parser.packagesBuffer = []) ↔
      Paced (trailing 0 (fileBytes sections).length (standaloneEnds 0 sections)) (chunkEnds 0 chunks)
        (standaloneEnds 0 sections) := by
  have resting := resting_start sections
  rw [← cut] at resting
  obtain ⟨after, parsed, complete⟩ := resting.parseChunks chunks (.inr ⟨sections, rfl⟩)
  have inside := standaloneEnds_inside 0 sections
  rw [Nat.zero_add] at inside complete
  rw [cut] at complete
  have nothing : standaloneEnds 0 sections = [] → chunkEnds 0 chunks = [] → 0 = (fileBytes sections).length := by
    intro _ none
    cases chunks with
    | nil => rw [← cut]; rfl
    | cons chunk rest => cases none
  calc (∃ parser, parseChunks {} chunks = some parser ∧ parser.handed = fileItems sections ∧
          parser.packagesBuffer = [])
      ↔ after.handed = fileItems sections ∧ after.packagesBuffer = [] := by simp [parsed]
    _ ↔ _ := complete
    _ ↔ _ := keeps_iff_paced (standaloneEnds_pairwise 0 sections) (chunkEnds_pairwise 0 chunks) inside
    _ ↔ _ := and_iff_left nothing

/-- However a file is cut, and wherever it breaks off, its first items are handed on, each once and in order. -/
theorem framing_hands_front (sections : List Section) (sizes : List Nat) :
    ∃ parser, parseChunks {} (sizes.splitLengths (fileBytes sections)) = some parser ∧
      parser.handed <+: fileItems sections :=
  (resting_start sections).parseChunks_sizes sizes

def perfHeader : List UInt8 :=
  Data.littleEndian 8 headerMagic ++ Data.littleEndian 8 1025 ++ List.replicate 40 0 ++
    Data.littleEndian 4 hiperfData ++ List.replicate 964 0

def perfSection : Section where
  header := perfHeader
  body := .standalone false [7]
  header_length := by decide +kernel
  magic := by decide +kernel
  total_length := by decide +kernel
  announced := show headerDataType perfHeader = hiperfData by decide +kernel
  sized := cons_ne_nil _ _

theorem framing_perfSections_apart :
    [perfSection.bytes, perfSection.bytes].flatten = fileBytes [perfSection, perfSection] ∧
      ∃ parser, parseChunks {} [perfSection.bytes, perfSection.bytes] = some parser ∧
        parser.handed = [.hiperf [7], .hiperf [7]] ∧ parser.packagesBuffer = [] :=
  ⟨rfl, (framing_complete_iff_paced [perfSection, perfSection] [perfSection.bytes, perfSection.bytes] rfl).mpr
    (by decide +kernel)⟩

/-- Two perf sections in one chunk: the second one stays in the buffer. -/
theorem framing_perfSections_together :
    (parseChunks {} [fileBytes [perfSection, perfSection]]).map
        (fun parser => (parser.handed, decide (parser.packagesBuffer = perfSection.bytes))) =
      some ([.hiperf [7]], true) := by
  decide +kernel

end SmartPerf.Framing
