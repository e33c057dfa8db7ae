import Mynfs.Direct.Read

/-! The byte count of direct I/O: the greatest end of a header, but at most the least end of a truncated one. -/

namespace Mynfs

open List

section
variable {shift : Nat}

namespace DirectReq
variable (dreq : DirectReq shift) {hdr : IoCount}

theorem markRequests_eq : ∀ (reqs : List (NfsPage shift)) (dreq : DirectReq shift),
    dreq.markRequests reqs = { dreq with commitList := dreq.commitList ++ reqs }
  | [], dreq => by simp [markRequests]
  | req :: reqs, dreq => by
    have ih := markRequests_eq reqs (dreq.markRequestCommit req)
    simpa [markRequests, markRequestCommit] using ih

theorem handleTruncated_eq (h : (hdr.iohdrError || hdr.iohdrEof)) (hle : dreq.count ≤ dreq.maxCount)
    (n : Nat) : dreq.handleTruncated hdr n =
      { dreq with maxCount := min dreq.maxCount n, count := min dreq.count n
                  error := if hdr.iohdrError ∧ dreq.error = 0 then hdr.error else dreq.error } := by
  have hcut : (if n ≤ dreq.maxCount then
      { dreq with maxCount := n, count := if n < dreq.count then n else dreq.count } else dreq) =
      { dreq with maxCount := min dreq.maxCount n, count := min dreq.count n } := by
    split
    next hn =>
      have hcount : (if n < dreq.count then n else dreq.count) = min dreq.count n := by split <;> omega
      rw [min_eq_right hn, hcount]
    next hn => rw [min_eq_left (not_le.mp hn).le, min_eq_left (hle.trans (not_le.mp hn).le)]
  simp only [handleTruncated, h, Bool.not_true, Bool.false_eq_true, if_false, hcut]
  split <;> rfl

theorem dreqLen_eq (start stop : Nat) : (if start < stop then stop - start else 0) = stop - start := by
  split <;> omega

theorem countIo_of_ok (h : (hdr.iohdrError || hdr.iohdrEof) = false) : dreq.countIo hdr =
    { dreq with count := max dreq.count (min dreq.maxCount (hdr.ioStart + hdr.goodBytes - dreq.ioStart)) } := by
  have htrunc : ∀ n, dreq.handleTruncated hdr n = dreq := by simp [handleTruncated, h]
  simp only [countIo, dreqLen_eq, htrunc]
  generalize hdr.ioStart + hdr.goodBytes - dreq.ioStart = n
  have hmin : (if dreq.maxCount < n then dreq.maxCount else n) = min dreq.maxCount n := by
    split <;> omega
  rw [hmin]
  split
  next hlt => rw [max_eq_right hlt.le]
  next hlt => rw [max_eq_left (not_lt.mp hlt)]

theorem countIo_of_truncated (h : (hdr.iohdrError || hdr.iohdrEof)) (hle : dreq.count ≤ dreq.maxCount) :
    dreq.countIo hdr =
      { dreq with maxCount := min dreq.maxCount (hdr.ioStart + hdr.goodBytes - dreq.ioStart)
                  count := min dreq.maxCount (hdr.ioStart + hdr.goodBytes - dreq.ioStart)
                  error := if hdr.iohdrError ∧ dreq.error = 0 then hdr.error else dreq.error } := by
  simp only [countIo, dreqLen_eq, dreq.handleTruncated_eq h hle]
  generalize hdr.ioStart + hdr.goodBytes - dreq.ioStart = n
  have hlen : (if min dreq.maxCount n < n then min dreq.maxCount n else n) = min dreq.maxCount n := by
    split <;> omega
  rw [hlen]
  split
  · rfl
  next hlt =>
    have hcount : min dreq.count n = min dreq.maxCount n := by omega
    rw [hcount]

theorem handleTruncated_frame (hdr : IoCount) (len : Nat) :
    (dreq.handleTruncated hdr len).ioStart = dreq.ioStart ∧ (dreq.handleTruncated hdr len).ioCount = dreq.ioCount ∧
    (dreq.handleTruncated hdr len).rpcsOut = dreq.rpcsOut ∧ (dreq.handleTruncated hdr len).flags = dreq.flags ∧
    (dreq.handleTruncated hdr len).commitList = dreq.commitList := by
  unfold handleTruncated
  dsimp only
  split_ifs <;> exact ⟨rfl, rfl, rfl, rfl, rfl⟩

theorem countIo_frame (hdr : IoCount) : (dreq.countIo hdr).ioStart = dreq.ioStart ∧
    (dreq.countIo hdr).ioCount = dreq.ioCount ∧ (dreq.countIo hdr).rpcsOut = dreq.rpcsOut ∧
    (dreq.countIo hdr).flags = dreq.flags ∧ (dreq.countIo hdr).commitList = dreq.commitList := by
  unfold countIo
  dsimp only
  generalize (if dreq.ioStart < hdr.ioStart + hdr.goodBytes then hdr.ioStart + hdr.goodBytes - dreq.ioStart else 0) = len
  have hframe := dreq.handleTruncated_frame hdr len
  split_ifs <;> exact hframe

end DirectReq

namespace DirectHeader
variable {hdr : DirectHeader shift} {start len : Nat}

def io : DirectHeader shift → IoCount
  | .read hdr => ⟨hdr.ioStart, hdr.goodBytes, hdr.iohdrError, hdr.iohdrEof, hdr.error⟩
  | .write hdr => ⟨hdr.ioStart, hdr.goodBytes, hdr.iohdrError, false, hdr.error⟩

def redo : DirectHeader shift → Bool
  | .read hdr => hdr.iohdrRedo
  | .write hdr => hdr.iohdrRedo

def truncated (hdr : DirectHeader shift) : Bool := hdr.io.iohdrError || hdr.io.iohdrEof

/-- A header that was made for `len` bytes from `start` on, and has got its replies. -/
inductive Answers (start len : Nat) : DirectHeader shift → Prop
  | read (pages : List Nat) (args : PgioArgs) (tkOps : Bool) (replies : List ReadReply) :
    Answers start len (.read (replies.foldl ReadHeader.nfsPgioResult
      { ioStart := start, goodBytes := len, pages, args, tkOps }))
  | write (pages : List (NfsPage shift)) (argsOffset argsCount : Nat) (replies : List WriteReply) :
    Answers start len (.write (replies.foldl PgioHeader.nfsPgioResult
      { ioStart := start, goodBytes := len, pages, argsOffset, argsCount }))

/-- A header that is done. -/
structure Answered (start len : Nat) (hdr : DirectHeader shift) : Prop where
  ioStart : hdr.io.ioStart = start
  goodBytes_le : hdr.io.goodBytes ≤ len
  truncated_iff : hdr.truncated = true ↔ hdr.io.goodBytes < len
  redo : hdr.redo = false

variable {hdr' : DirectHeader shift}

theorem Answered.shorten (h : Answered start len hdr) (hstart : hdr'.io.ioStart = hdr.io.ioStart)
    (hlt : hdr'.io.goodBytes < hdr.io.goodBytes) (htruncated : hdr'.truncated) (hredo : hdr'.redo = hdr.redo) :
    Answered start len hdr' := by
  have hle := h.goodBytes_le
  exact ⟨hstart.trans h.ioStart, by omega, iff_of_true htruncated (by omega), hredo.trans h.redo⟩

theorem Answered.of_io (h : Answered start len hdr) (hio : hdr'.io = hdr.io)
    (hredo : hdr'.redo = hdr.redo) : Answered start len hdr' := by
  obtain ⟨h₁, h₂, h₃, h₄⟩ := h
  unfold truncated at h₃
  rw [← hio] at h₁ h₂ h₃
  exact ⟨h₁, h₂, h₃, hredo.trans h₄⟩

theorem answered_nfsSetPgioError {hdr : ReadHeader} (h : Answered start len (.read hdr : DirectHeader shift)) (error : Int)
    (pos : Nat) : Answered start len (.read (hdr.nfsSetPgioError error pos) : DirectHeader shift) := by
  unfold ReadHeader.nfsSetPgioError
  dsimp only
  split
  next hlt => exact h.shorten rfl hlt rfl rfl
  · exact h

theorem answered_readpageResult {hdr : ReadHeader} (h : Answered start len (.read hdr : DirectHeader shift)) :
    Answered start len (.read hdr.nfsReadpageResult : DirectHeader shift) := by
  unfold ReadHeader.nfsReadpageResult
  split
  · dsimp only
    split
    next hlt => exact h.shorten rfl hlt rfl rfl
    · exact h.of_io rfl rfl
  split
  · unfold ReadHeader.nfsReadpageRetry
    split
    · exact (answered_nfsSetPgioError h _ _).of_io rfl rfl
    split
    · exact h.of_io rfl rfl
    · exact h.of_io rfl rfl
  · exact h.of_io rfl rfl

theorem answered_read {hdr : ReadHeader} (h : Answered start len (.read hdr : DirectHeader shift)) (reply : ReadReply) :
    Answered start len (.read (hdr.nfsPgioResult reply) : DirectHeader shift) := by
  unfold ReadHeader.nfsPgioResult
  cases reply.outcome with
  | restarted => exact h
  | failed tkStatus => exact (answered_nfsSetPgioError h _ _).of_io rfl rfl
  | result eof count avail =>
    refine answered_readpageResult ?_
    exact h.of_io rfl rfl

theorem answered_setPgioError {hdr : PgioHeader shift} (h : Answered start len (.write hdr)) (error : Int) (pos : Nat) :
    Answered start len (.write (hdr.setPgioError error pos)) := by
  unfold PgioHeader.setPgioError
  dsimp only
  split
  next hlt => exact h.shorten rfl hlt rfl rfl
  · exact h

theorem answered_write {hdr : PgioHeader shift} (h : Answered start len (.write hdr)) (reply : WriteReply) :
    Answered start len (.write (hdr.nfsPgioResult reply)) := by
  cases reply with
  | error status => exact answered_setPgioError h _ _
  | written count verf =>
    have hdone : Answered start len (.write (hdr.writebackDone verf)) := h.of_io rfl rfl
    show Answered start len (.write ((hdr.writebackDone verf).writebackResult count).1)
    unfold PgioHeader.writebackResult
    split
    · split
      · exact answered_setPgioError hdone _ _
      split
      · exact hdone.of_io rfl rfl
      · exact hdone
    · exact hdone

/-- A header falls short of its range iff it is truncated. -/
theorem Answers.answered (h : Answers start len hdr) : Answered start len hdr := by
  cases h with
  | read pages args tkOps replies =>
    refine foldlRecOn (motive := fun hdr => Answered start len (.read hdr : DirectHeader shift)) replies _ ?_
      fun hdr h reply _ => answered_read h reply
    exact ⟨rfl, le_rfl, by simp [truncated, io], rfl⟩
  | write pages argsOffset argsCount replies =>
    refine foldlRecOn (motive := fun hdr => Answered start len (.write hdr)) replies _ ?_
      fun hdr h reply _ => answered_write h reply
    exact ⟨rfl, le_rfl, by simp [truncated, io], rfl⟩

end DirectHeader

namespace DirectReq
variable {dreq : DirectReq shift} {hdr : DirectHeader shift} {start most : Nat} {done : List (DirectHeader shift)}

theorem writeCompletion_counts {hdr : PgioHeader shift} (hredo : hdr.iohdrRedo = false) :
    (dreq.writeCompletion hdr).ioStart = dreq.ioStart ∧ (dreq.writeCompletion hdr).maxCount = (dreq.countBytes hdr).maxCount ∧
    (dreq.writeCompletion hdr).count = (dreq.countBytes hdr).count := by
  have hstart : (dreq.countBytes hdr).ioStart = dreq.ioStart := (dreq.countIo_frame _).1
  have hflags : ∀ d : DirectReq shift,
      let d' := if d.flags = .zero then { d with flags := .doCommit } else d
      d'.ioStart = d.ioStart ∧ d'.maxCount = d.maxCount ∧ d'.count = d.count := by
    intro d d'
    show (if d.flags = .zero then _ else d).ioStart = _ ∧ (if d.flags = .zero then _ else d).maxCount = _ ∧
      (if d.flags = .zero then _ else d).count = _
    split <;> exact ⟨rfl, rfl, rfl⟩
  unfold writeCompletion
  rw [if_neg (by rw [hredo]; exact Bool.false_ne_true)]
  dsimp only
  generalize dreq.countBytes hdr = d at hstart ⊢
  split
  · obtain ⟨h₁, h₂, h₃⟩ := hflags d
    split
    · rw [markRequests_eq]
      exact ⟨h₁.trans hstart, h₂, h₃⟩
    · rw [markRequests_eq]
      exact ⟨h₁.trans hstart, h₂, h₃⟩
    · exact ⟨h₁.trans hstart, h₂, h₃⟩
    · exact ⟨h₁.trans hstart, h₂, h₃⟩
  · exact ⟨hstart, rfl, rfl⟩

theorem completion_counts (hredo : hdr.redo = false) :
    (dreq.completion hdr).ioStart = dreq.ioStart ∧ (dreq.completion hdr).maxCount = (dreq.countIo hdr.io).maxCount ∧
    (dreq.completion hdr).count = (dreq.countIo hdr.io).count := by
  cases hdr with
  | read hdr =>
    have hdone : dreq.completion (.read hdr : DirectHeader shift) = dreq.countIo (.read hdr : DirectHeader shift).io :=
      if_neg (by rw [show hdr.iohdrRedo = false from hredo]; exact Bool.false_ne_true)
    rw [hdone]
    exact ⟨(dreq.countIo_frame _).1, rfl, rfl⟩
  | write hdr => exact writeCompletion_counts hredo

def goodEnd (start : Nat) (hdr : DirectHeader shift) : Nat := hdr.io.ioStart + hdr.io.goodBytes - start

/-- `max_count` is the least end of a truncated header, and the count the greatest end up to that. -/
structure Counts (start most : Nat) (done : List (DirectHeader shift)) (dreq : DirectReq shift) : Prop where
  ioStart : dreq.ioStart = start
  cut : ∀ hdr ∈ done, hdr.truncated → dreq.maxCount ≤ goodEnd start hdr
  max_eq : dreq.maxCount = most ∨ ∃ hdr ∈ done, hdr.truncated ∧ dreq.maxCount = goodEnd start hdr
  count_le : dreq.count ≤ dreq.maxCount
  reaches : ∀ hdr ∈ done, min dreq.maxCount (goodEnd start hdr) ≤ dreq.count
  count_eq : dreq.count = 0 ∨ ∃ hdr ∈ done, dreq.count ≤ goodEnd start hdr

/-- A completion takes its header into the counts. -/
theorem counts_completion (h : Counts start most done dreq) (hredo : hdr.redo = false) :
    Counts start most (hdr :: done) (dreq.completion hdr) := by
  obtain ⟨hstart, hcut, hmax, hle, hreaches, hcount⟩ := h
  obtain ⟨hstart', hmax', hcount'⟩ : (dreq.completion hdr).ioStart = dreq.ioStart ∧ _ := completion_counts hredo
  cases htruncated : hdr.truncated with
  | false =>
    rw [dreq.countIo_of_ok htruncated, hstart] at hcount'
    rw [dreq.countIo_of_ok htruncated] at hmax'
    replace hcount' : (dreq.completion hdr).count = max dreq.count (min dreq.maxCount (goodEnd start hdr)) := hcount'
    replace hmax' : (dreq.completion hdr).maxCount = dreq.maxCount := hmax'
    refine ⟨hstart'.trans hstart, ?_, ?_, by omega, ?_, ?_⟩
    · intro hdr' hmem ht
      rw [hmax']
      rcases mem_cons.mp hmem with rfl | hmem
      · rw [htruncated] at ht
        cases ht
      · exact hcut hdr' hmem ht
    · rw [hmax']
      rcases hmax with hmax | ⟨hdr', hmem, hrest⟩
      · exact .inl hmax
      · exact .inr ⟨hdr', mem_cons_of_mem hdr hmem, hrest⟩
    · intro hdr' hmem
      rcases mem_cons.mp hmem with rfl | hmem
      · omega
      · have hold := hreaches hdr' hmem
        omega
    · by_cases hgreater : dreq.count ≤ goodEnd start hdr
      · exact .inr ⟨hdr, mem_cons_self, by omega⟩
      · rcases hcount with hzero | ⟨hdr', hmem, hrest⟩
        · omega
        · exact .inr ⟨hdr', mem_cons_of_mem hdr hmem, by omega⟩
  | true =>
    rw [dreq.countIo_of_truncated htruncated hle, hstart] at hcount' hmax'
    replace hcount' : (dreq.completion hdr).count = min dreq.maxCount (goodEnd start hdr) := hcount'
    replace hmax' : (dreq.completion hdr).maxCount = min dreq.maxCount (goodEnd start hdr) := hmax'
    refine ⟨hstart'.trans hstart, ?_, ?_, by omega, ?_, ?_⟩
    · intro hdr' hmem ht
      rcases mem_cons.mp hmem with rfl | hmem
      · omega
      · have hold := hcut hdr' hmem ht
        omega
    · by_cases hleast : goodEnd start hdr ≤ dreq.maxCount
      · exact .inr ⟨hdr, mem_cons_self, htruncated, by omega⟩
      · rcases hmax with hmax | ⟨hdr', hmem, ht, hrest⟩
        · exact .inl (by omega)
        · exact .inr ⟨hdr', mem_cons_of_mem hdr hmem, ht, by omega⟩
    · omega
    · exact .inr ⟨hdr, mem_cons_self, by omega⟩

theorem counts_foldl (order done : List (DirectHeader shift)) (dreq : DirectReq shift)
    (h : Counts start most done dreq) (hredo : ∀ hdr ∈ order, hdr.redo = false) :
    Counts start most (order.reverse ++ done) (order.foldl completion dreq) := by
  induction order generalizing done dreq with
  | nil => exact h
  | cons hdr order ih =>
    have hnext := ih _ _ (counts_completion h (hredo hdr mem_cons_self)) fun hdr' hmem =>
      hredo hdr' (mem_cons_of_mem hdr hmem)
    rw [reverse_cons, append_assoc]
    exact hnext

end DirectReq

/-- Headers for one range after the other, each with the number of its bytes. -/
def HeaderTiles : Nat → List (Nat × DirectHeader shift) → Prop
  | _, [] => True
  | start, (len, hdr) :: tiles => hdr.Answers start len ∧ HeaderTiles (start + len) tiles

section
variable (tiles : List (Nat × DirectHeader shift))

def tiledBytes : Nat := (tiles.map (·.1)).sum

def GoodByte (pos : Nat) : Prop :=
  ∃ tile ∈ tiles, tile.2.io.ioStart ≤ pos ∧ pos < tile.2.io.ioStart + tile.2.io.goodBytes

end

section
variable {start pos : Nat} {tiles : List (Nat × DirectHeader shift)} {tile tile' : Nat × DirectHeader shift}

def InTile (tile : Nat × DirectHeader shift) (pos : Nat) : Prop :=
  tile.2.io.ioStart ≤ pos ∧ pos < tile.2.io.ioStart + tile.1

theorem HeaderTiles.answered (h : HeaderTiles start tiles) (hmem : tile ∈ tiles) :
    start ≤ tile.2.io.ioStart ∧ tile.2.io.ioStart + tile.1 ≤ start + tiledBytes tiles ∧
    tile.2.Answered tile.2.io.ioStart tile.1 := by
  induction tiles generalizing start with
  | nil => cases hmem
  | cons t tiles ih =>
    obtain ⟨hanswers, htiles⟩ := h
    have hans := hanswers.answered
    have hsum : tiledBytes (t :: tiles) = t.1 + tiledBytes tiles := sum_cons
    rcases mem_cons.mp hmem with rfl | hmem
    · rw [hans.ioStart]
      exact ⟨le_rfl, by omega, hans⟩
    · obtain ⟨hstart, hend, hrest⟩ := ih htiles hmem
      exact ⟨by omega, by omega, hrest⟩

theorem HeaderTiles.exists_tile (h : HeaderTiles start tiles) (hstart : start ≤ pos) (hend : pos < start + tiledBytes tiles) :
    ∃ tile ∈ tiles, InTile tile pos := by
  induction tiles generalizing start with
  | nil => exact absurd (hstart.trans_lt hend) (Nat.lt_irrefl _)
  | cons t tiles ih =>
    obtain ⟨hanswers, htiles⟩ := h
    have hsum : tiledBytes (t :: tiles) = t.1 + tiledBytes tiles := sum_cons
    by_cases hpos : pos < start + t.1
    · refine ⟨t, mem_cons_self, ?_, ?_⟩
      · rw [hanswers.answered.ioStart]
        exact hstart
      · rw [hanswers.answered.ioStart]
        exact hpos
    · obtain ⟨tile, hmem, hin⟩ := ih htiles (not_lt.mp hpos) (by omega)
      exact ⟨tile, mem_cons_of_mem t hmem, hin⟩

theorem HeaderTiles.eq_of_inTile (h : HeaderTiles start tiles) (hmem : tile ∈ tiles) (hmem' : tile' ∈ tiles)
    (hin : InTile tile pos) (hin' : InTile tile' pos) : tile = tile' := by
  induction tiles generalizing start with
  | nil => cases hmem
  | cons t tiles ih =>
    obtain ⟨hanswers, htiles⟩ := h
    have hstart := hanswers.answered.ioStart
    -- what is in a later tile is not in the first one
    have hlater : ∀ u ∈ tiles, InTile u pos → ¬InTile t pos := by
      intro u hu hinu hint
      have hfrom := (htiles.answered hu).1
      have h₁ := hinu.1
      have h₂ := hint.2
      omega
    rcases mem_cons.mp hmem with heq | htail
    · rcases mem_cons.mp hmem' with heq' | htail'
      · rw [heq, heq']
      · exact absurd (heq ▸ hin) (hlater tile' htail' hin')
    · rcases mem_cons.mp hmem' with heq' | htail'
      · exact absurd (heq' ▸ hin') (hlater tile htail hin)
      · exact ih htiles htail htail'

/-- The first byte that is missing, from the start of the range on, or the end of the range. -/
structure FirstMissing (start : Nat) (tiles : List (Nat × DirectHeader shift)) (n : Nat) : Prop where
  le : n ≤ tiledBytes tiles
  good : ∀ x < n, GoodByte tiles (start + x)
  missing : n < tiledBytes tiles → ¬GoodByte tiles (start + n)

theorem FirstMissing.unique {m n : Nat} (hm : FirstMissing start tiles m) (hn : FirstMissing start tiles n) : m = n := by
  rcases Nat.lt_trichotomy m n with hlt | heq | hlt
  · exact absurd (hn.good m hlt) (hm.missing (hlt.trans_le hn.le))
  · exact heq
  · exact absurd (hm.good n hlt) (hn.missing (hlt.trans_le hm.le))

theorem firstMissing_count (dreq : DirectReq shift) (htiles : HeaderTiles dreq.ioStart tiles) (hcount : dreq.count = 0)
    (hmost : tiledBytes tiles ≤ dreq.maxCount) {order : List (DirectHeader shift)} (hperm : order.Perm (tiles.map (·.2))) :
    FirstMissing dreq.ioStart tiles (order.foldl DirectReq.completion dreq).count := by
  have hmem : ∀ {hdr}, hdr ∈ order ↔ ∃ tile ∈ tiles, tile.2 = hdr := hperm.mem_iff.trans mem_map
  have hredo : ∀ hdr ∈ order, hdr.redo = false := by
    intro hdr hhdr
    obtain ⟨tile, htile, rfl⟩ := hmem.mp hhdr
    exact (htiles.answered htile).2.2.redo
  have hstart : DirectReq.Counts dreq.ioStart dreq.maxCount [] dreq :=
    ⟨rfl, fun _ h => absurd h not_mem_nil, .inl rfl, by omega, fun _ h => absurd h not_mem_nil, .inl hcount⟩
  have hcounts := DirectReq.counts_foldl order [] dreq hstart hredo
  rw [append_nil] at hcounts
  obtain ⟨-, hcut, hmax, hle, hreaches, hzero⟩ := hcounts
  simp only [mem_reverse] at hcut hmax hreaches hzero
  generalize (order.foldl DirectReq.completion dreq).count = n at hle hreaches hzero ⊢
  have hn : n ≤ tiledBytes tiles := by
    rcases hzero with hzero | ⟨hdr, hhdr, hend⟩
    · omega
    · obtain ⟨tile, htile, rfl⟩ := hmem.mp hhdr
      obtain ⟨hfrom, hto, hans⟩ := htiles.answered htile
      have hgood := hans.goodBytes_le
      unfold DirectReq.goodEnd at hend
      omega
  refine ⟨hn, fun x hx => ?_, fun hlt hgood => ?_⟩
  · -- a byte below the count is in some tile, and if that is short, it is truncated behind the byte
    obtain ⟨tile, htile, hin⟩ := htiles.exists_tile (Nat.le_add_right dreq.ioStart x) (by omega)
    obtain ⟨hfrom, hto, hans⟩ := htiles.answered htile
    refine ⟨tile, htile, hin.1, ?_⟩
    by_cases hshort : tile.2.io.goodBytes < tile.1
    · have hend := hcut tile.2 (hmem.mpr ⟨tile, htile, rfl⟩) (hans.truncated_iff.mpr hshort)
      unfold DirectReq.goodEnd at hend
      omega
    · have hend := hin.2
      omega
  · -- a good byte at the count is cut off by a short tile that ends there, which is the same tile
    obtain ⟨tile, htile, hfrom, hto⟩ := hgood
    have hreach := hreaches tile.2 (hmem.mpr ⟨tile, htile, rfl⟩)
    obtain ⟨hstart, -, hans⟩ := htiles.answered htile
    have hgood := hans.goodBytes_le
    unfold DirectReq.goodEnd at hreach hmax
    rcases hmax with hmax | ⟨hdr, hhdr, htruncated, hmax⟩
    · omega
    · obtain ⟨tile', htile', rfl⟩ := hmem.mp hhdr
      obtain ⟨hstart', -, hans'⟩ := htiles.answered htile'
      have hshort := hans'.truncated_iff.mp htruncated
      have hin : InTile tile (dreq.ioStart + n) := ⟨hfrom, by omega⟩
      have hin' : InTile tile' (dreq.ioStart + n) := ⟨by omega, by omega⟩
      have hsame : tile = tile' := htiles.eq_of_inTile htile htile' hin hin'
      rw [hsame] at hto hfrom hreach
      omega

/-- If headers that are all done tile a range, the count is the distance to the first byte that is missing. -/
theorem directCount_eq_firstMissing (dreq : DirectReq shift) (tiles : List (Nat × DirectHeader shift))
    (htiles : HeaderTiles dreq.ioStart tiles) (hcount : dreq.count = 0) (hmost : tiledBytes tiles ≤ dreq.maxCount) :
    ∃ n, FirstMissing dreq.ioStart tiles n ∧ ∀ order : List (DirectHeader shift), order.Perm (tiles.map (·.2)) →
        (order.foldl DirectReq.completion dreq).count = n := by
  have hfirst := firstMissing_count dreq htiles hcount hmost (List.Perm.refl _)
  exact ⟨_, hfirst, fun order hperm => (firstMissing_count dreq htiles hcount hmost hperm).unique hfirst⟩

end

def readReply (eof : Bool) (count : Nat) : ReadReply := ⟨fun _ => 0, .result eof count count⟩

def tenBytes (start : Nat) (reply : ReadReply) : DirectHeader 12 :=
  .read ([reply].foldl ReadHeader.nfsPgioResult
    { ioStart := start, goodBytes := 10, pages := [], args := ⟨start, 0, 10, []⟩, tkOps := true })

def twoReads : List (Nat × DirectHeader 12) :=
  [(10, tenBytes 100 (readReply false 10)), (10, tenBytes 110 (readReply true 4))]

theorem directCount_eq_firstMissing_twoReads : FirstMissing 100 twoReads 14 ∧
    ((twoReads.map (·.2)).reverse.foldl DirectReq.completion { ioStart := 100, maxCount := 20 }).count = 14 := by
  obtain ⟨n, hfirst, horder⟩ := directCount_eq_firstMissing { ioStart := 100, maxCount := 20 } twoReads
    ⟨.read [] _ true [readReply false 10], .read [] _ true [readReply true 4], trivial⟩ rfl (by decide)
  have hsame := horder (twoReads.map (·.2)) (List.Perm.refl _)
  have hn : n = 14 := hsame.symm
  rw [hn] at hfirst horder
  exact ⟨hfirst, horder _ (reverse_perm _)⟩

end

end Mynfs
