import TangNano.Cache.Sdram

/-!
# Coherence of the cache with the SDRAM

The memory a client sees is made of the cached lines and, elsewhere, of the
SDRAM.  The invariant says for each line which of the two holds its words, and
for the line that is being evicted or refilled how many of them have been
moved; each clock edge keeps it for the memory to which the write accepted in
that cycle has been applied.
-/

namespace TangNano.Cache

open Bytes

/-! ## Word addresses -/

section Words

variable (p : Params)

/-- RAM address of the word that holds a byte address. -/
def wordAddress (a : Word) : ℕ := a.toNat / 4 % 2 ^ p.ramAddressBitwidth

def columnOf (a : ℕ) : ℕ := a % p.columnCount

def lineOf (a : ℕ) : ℕ := a / p.columnCount % 2 ^ p.lineIndexBitwidth

def tagOf (a : ℕ) : ℕ := a / p.columnCount / 2 ^ p.lineIndexBitwidth

variable {p} (hmode : p.ramAddressingMode = 2)

include hmode

theorem lineAddress_eq (t l : ℕ) :
    lineAddress p t l = (t * 2 ^ p.lineIndexBitwidth + l) * p.columnCount := by
  simp [lineAddress, Params.lineToRamAddressLeftShift, Params.columnCount, zerosBitwidth, hmode]

theorem lineAddress_add_div {t l c : ℕ} (hc : c < p.columnCount) :
    (lineAddress p t l + c) / p.columnCount = t * 2 ^ p.lineIndexBitwidth + l := by
  rw [lineAddress_eq hmode, Nat.add_comm, Nat.add_mul_div_right _ _ (by omega),
    Nat.div_eq_of_lt hc, Nat.zero_add]

theorem columnOf_add {t l c : ℕ} (hc : c < p.columnCount) :
    columnOf p (lineAddress p t l + c) = c := by
  rw [columnOf, lineAddress_eq hmode, Nat.mul_add_mod_self_right, Nat.mod_eq_of_lt hc]

theorem lineOf_add {t l c : ℕ} (hc : c < p.columnCount) (hl : l < 2 ^ p.lineIndexBitwidth) :
    lineOf p (lineAddress p t l + c) = l := by
  rw [lineOf, lineAddress_add_div hmode hc, Nat.mul_add_mod_self_right, Nat.mod_eq_of_lt hl]

theorem tagOf_add {t l c : ℕ} (hc : c < p.columnCount) (hl : l < 2 ^ p.lineIndexBitwidth) :
    tagOf p (lineAddress p t l + c) = t := by
  rw [tagOf, lineAddress_add_div hmode hc, Nat.add_comm,
    Nat.add_mul_div_right _ _ (Nat.two_pow_pos _), Nat.div_eq_of_lt hl, Nat.zero_add]

/-- Tag, line and column can be read off a word address. -/
theorem word_inj {t t' l l' c c' : ℕ} (hc : c < p.columnCount) (hc' : c' < p.columnCount)
    (hl : l < 2 ^ p.lineIndexBitwidth) (hl' : l' < 2 ^ p.lineIndexBitwidth)
    (h : lineAddress p t l + c = lineAddress p t' l' + c') : t = t' ∧ l = l' ∧ c = c' := by
  have htag := congrArg (tagOf p) h
  have hline := congrArg (lineOf p) h
  have hcolumn := congrArg (columnOf p) h
  rw [tagOf_add hmode hc hl, tagOf_add hmode hc' hl'] at htag
  rw [lineOf_add hmode hc hl, lineOf_add hmode hc' hl'] at hline
  rw [columnOf_add hmode hc, columnOf_add hmode hc'] at hcolumn
  exact ⟨htag, hline, hcolumn⟩

theorem wordAddress_eq (a : Word) :
    wordAddress p a = lineAddress p (addressTag p a) (lineIx p a) + columnIx p a := by
  rw [← burstLineAddress_eq]
  have hsum := bitwidth_sum p
  have hshift : p.lineToRamAddressLeftShift = p.columnIndexBitwidth := by
    simp [Params.lineToRamAddressLeftShift, zerosBitwidth, hmode]
  have hwidth : p.ramAddressBitwidth =
      p.columnIndexBitwidth + (p.tagBitwidth + p.lineIndexBitwidth) := by omega
  unfold wordAddress burstLineAddress columnIx
  rw [hwidth, hshift, Nat.pow_add 2 p.columnIndexBitwidth (p.tagBitwidth + p.lineIndexBitwidth),
    Nat.mod_mul, Nat.div_div_eq_div_mul, Nat.pow_add 2 p.columnIndexBitwidth zerosBitwidth]
  simp only [zerosBitwidth, show 2 ^ 2 = 4 from rfl]
  rw [Nat.mul_comm (2 ^ p.columnIndexBitwidth) 4, Nat.add_comm,
    Nat.mul_comm (2 ^ p.columnIndexBitwidth)]

/-- A line does not cross the end of its row. -/
theorem lineAddress_fits (t l : ℕ) :
    lineAddress p t l % 256 + (p.columnCount - 1) < 256 := by
  have hdvd : p.columnCount ∣ 256 := by
    change 2 ^ p.columnIndexBitwidth ∣ 2 ^ 8
    exact Nat.pow_dvd_pow 2 p.column_le
  obtain ⟨k, hk⟩ := hdvd
  have hpos : 0 < p.columnCount := Nat.two_pow_pos _
  have hkpos : 0 < k := by
    rcases Nat.eq_zero_or_pos k with rfl | hkpos
    · omega
    · exact hkpos
  rw [lineAddress_eq hmode, hk, Nat.mul_comm _ p.columnCount, Nat.mul_mod_mul_left]
  have hlt : (t * 2 ^ p.lineIndexBitwidth + l) % k + 1 ≤ k := Nat.mod_lt _ hkpos
  have hmul := Nat.mul_le_mul_left p.columnCount hlt
  rw [Nat.mul_add, Nat.mul_one] at hmul
  omega

end Words

/-! ## Lines -/

section Lines

variable (p : Params)

/-- Who holds the words of line `l` of the memory `M`: the columns under the
cached tag, the SDRAM `d` under every tag but that of a dirty line. -/
structure CoherentLine (s : Regs) (d M : WordMemory) (l : ℕ) : Prop where
  valid : lineDirty p s l = true → lineValid p s l = true
  cached : lineValid p s l = true → ∀ c < p.columnCount,
    s.column c l = M (lineAddress p (cachedTag p s l) l + c)
  stored : ∀ t < 2 ^ p.tagBitwidth, (lineDirty p s l = true → cachedTag p s l ≠ t) →
    ∀ c < p.columnCount, d (lineAddress p t l + c) = M (lineAddress p t l + c)

def CoherentLines (s : Regs) (d M : WordMemory) : Prop :=
  ∀ l < 2 ^ p.lineIndexBitwidth, CoherentLine p s d M l

/-- Line `lo` is being refilled: its words are all in the SDRAM. -/
structure Refilling (s : Regs) (d M : WordMemory) (lo : ℕ) : Prop where
  others : ∀ l < 2 ^ p.lineIndexBitwidth, l ≠ lo → CoherentLine p s d M l
  flushed : ∀ t < 2 ^ p.tagBitwidth, ∀ c < p.columnCount,
    d (lineAddress p t lo + c) = M (lineAddress p t lo + c)

/-- The write accepted in a cycle, if there is one. -/
def accepted (i : Input) (s : Regs) : List MaskedWrite :=
  if i.enable && i.writeEnable != 0 && !busy p i s then
    [⟨wordAddress p i.address, i.writeEnable, i.dataIn⟩]
  else []

variable {p} {s s' : Regs} {d d' M M' : WordMemory} {l : ℕ}

theorem accepted_of_busy {i : Input} (h : busy p i s = true) : accepted p i s = [] := by
  simp [accepted, h]

/-- A line is untouched when its tag word, its columns and its words are. -/
theorem CoherentLine.frame (h : CoherentLine p s d M l) (htag : s'.tag l = s.tag l)
    (hcolumn : ∀ c < p.columnCount, s'.column c l = s.column c l)
    (hmemory : ∀ t < 2 ^ p.tagBitwidth, ∀ c < p.columnCount,
      M' (lineAddress p t l + c) = M (lineAddress p t l + c))
    (hsdram : ∀ t < 2 ^ p.tagBitwidth, (lineDirty p s l = true → cachedTag p s l ≠ t) →
      ∀ c < p.columnCount, d' (lineAddress p t l + c) = d (lineAddress p t l + c)) :
    CoherentLine p s' d' M' l := by
  have hdirty : lineDirty p s' l = lineDirty p s l := by rw [lineDirty, htag, lineDirty]
  have hvalid : lineValid p s' l = lineValid p s l := by rw [lineValid, htag, lineValid]
  have hcached : cachedTag p s' l = cachedTag p s l := by rw [cachedTag, htag, cachedTag]
  constructor
  · rw [hdirty, hvalid]
    exact h.valid
  · rw [hvalid, hcached]
    intro hv c hc
    rw [hcolumn c hc, hmemory _ (cachedTag_lt p s l) c hc]
    exact h.cached hv c hc
  · rw [hdirty, hcached]
    intro t ht htagged c hc
    rw [hsdram t ht htagged c hc, hmemory t ht c hc]
    exact h.stored t ht htagged c hc

theorem CoherentLine.congr (h : CoherentLine p s d M l) (htag : s'.tag = s.tag)
    (hcolumn : s'.column = s.column) : CoherentLine p s' d M l :=
  h.frame (by rw [htag]) (fun _ _ ↦ by rw [hcolumn]) (fun _ _ _ _ ↦ rfl) fun _ _ _ _ _ ↦ rfl

theorem CoherentLines.congr (h : CoherentLines p s d M) (htag : s'.tag = s.tag)
    (hcolumn : s'.column = s.column) : CoherentLines p s' d M :=
  fun l hl ↦ (h l hl).congr htag hcolumn

theorem Refilling.congr {lo : ℕ} (h : Refilling p s d M lo) (htag : s'.tag = s.tag)
    (hcolumn : s'.column = s.column) : Refilling p s' d M lo :=
  ⟨fun l hl hne ↦ (h.others l hl hne).congr htag hcolumn, h.flushed⟩

/-- A clean line needs no eviction before it is refilled. -/
theorem CoherentLines.refill (h : CoherentLines p s d M) {lo : ℕ}
    (hlo : lo < 2 ^ p.lineIndexBitwidth) (hclean : lineDirty p s lo = false) :
    Refilling p s d M lo := by
  refine ⟨fun l hl _ ↦ h l hl, ?_⟩
  intro t ht c hc
  apply (h lo hlo).stored t ht _ c hc
  intro hdirty
  rw [hclean] at hdirty
  exact absurd hdirty Bool.false_ne_true

/-- Storing a word of a dirty cached line hides nothing. -/
theorem CoherentLines.store (hmode : p.ramAddressingMode = 2) (h : CoherentLines p s d M)
    {lo c : ℕ} (v : Word)
    (hlo : lo < 2 ^ p.lineIndexBitwidth) (hdirty : lineDirty p s lo = true)
    (hc : c < p.columnCount) :
    CoherentLines p s (Function.update d (lineAddress p (cachedTag p s lo) lo + c) v) M := by
  intro l hl
  refine (h l hl).frame rfl (fun _ _ ↦ rfl) (fun _ _ _ _ ↦ rfl) ?_
  intro t ht htagged c' hc'
  apply Function.update_of_ne
  intro heq
  obtain ⟨htag, hline, -⟩ := word_inj hmode hc' hc hl hlo heq
  subst hline
  exact htagged hdirty htag.symm

/-- A dirty line whose columns have all been stored can be refilled. -/
theorem CoherentLines.refill_of_stored (h : CoherentLines p s d M) {lo : ℕ}
    (hlo : lo < 2 ^ p.lineIndexBitwidth) (hdirty : lineDirty p s lo = true)
    (hstored : ∀ c < p.columnCount,
      d (lineAddress p (cachedTag p s lo) lo + c) = s.column c lo) :
    Refilling p s d M lo := by
  refine ⟨fun l hl _ ↦ h l hl, ?_⟩
  intro t ht c hc
  by_cases htag : cachedTag p s lo = t
  · subst htag
    rw [hstored c hc]
    exact (h lo hlo).cached ((h lo hlo).valid hdirty) c hc
  · exact (h lo hlo).stored t ht (fun _ ↦ htag) c hc

/-! ## Accepted writes -/

theorem tagNext_of_write {i : Input} (hg : Gates s false shut false) (hwrite : i.writeEnable ≠ 0#4)
    (hhit : cacheLineHit p i s = true) :
    tagNext p i s = Function.update s.tag (lineIx p i.address)
      (tagWord p true (addressTag p i.address)) := by
  simp [tagNext, tagWriteEnable, tagDataIn, hg.reading_eq, hg.writing_eq, hwrite, hhit]

theorem columnNext_of_write {i : Input} (hg : Gates s false shut false)
    (hwrite : i.writeEnable ≠ 0#4) (hhit : cacheLineHit p i s = true) (c l : ℕ) :
    columnNext p i s c l =
      if c = columnIx p i.address ∧ l = lineIx p i.address then
        mergeBytes i.writeEnable (s.column c l) i.dataIn
      else s.column c l := by
  have henable : columnWriteEnable p i s c =
      if c = columnIx p i.address then i.writeEnable else 0#4 := by
    simp [columnWriteEnable, hg.reading_eq, hg.writing_eq, hwrite, hhit]
  rw [columnNext, henable, hg.reading_eq]
  by_cases hc : c = columnIx p i.address
  · by_cases hl : l = lineIx p i.address
    · simp [hc, hl, Bram.step]
    · simp [hc, hl, Bram.step_of_ne]
  · simp [hc]

/-- Outside bursts nothing changes without a write. -/
theorem memory_of_read {i : Input} (hg : Gates s false shut false) (hwrite : i.writeEnable = 0#4) :
    tagNext p i s = s.tag ∧ columnNext p i s = s.column := by
  constructor
  · apply tagNext_of_shut
    simp [tagWriteEnable, hg.reading_eq, hg.writing_eq, hwrite]
  · apply columnNext_of_shut
    intro c
    simp [columnWriteEnable, hg.reading_eq, hg.writing_eq, hwrite]

theorem CoherentLines.write (hmode : p.ramAddressingMode = 2) {i : Input}
    (hg : Gates s false shut false) (hwrite : i.writeEnable ≠ 0#4)
    (hhit : cacheLineHit p i s = true) (h : CoherentLines p s d M)
    (htag : s'.tag = tagNext p i s) (hcolumn : s'.column = columnNext p i s) :
    CoherentLines p s' d
      (M.write ⟨wordAddress p i.address, i.writeEnable, i.dataIn⟩) := by
  have hlo := lineIx_lt p i.address
  have hco := columnIx_lt p i.address
  have hlt := addressTag_lt p i.address
  obtain ⟨hvalid, hsame⟩ : lineValid p s (lineIx p i.address) = true ∧
      addressTag p i.address = cachedTag p s (lineIx p i.address) := by
    simpa [cacheLineHit] using hhit
  rw [wordAddress_eq hmode]
  rw [tagNext_of_write hg hwrite hhit] at htag
  intro l hl
  by_cases hline : l = lineIx p i.address
  · subst hline
    have hnew : s'.tag (lineIx p i.address) = tagWord p true (addressTag p i.address) := by
      rw [htag, Function.update_self]
    have hvalid' : lineValid p s' (lineIx p i.address) = true := by
      rw [lineValid, hnew, tagWord_valid p true hlt]
    have hdirty' : lineDirty p s' (lineIx p i.address) = true := by
      rw [lineDirty, hnew, tagWord_dirty p true hlt]
    have hcached' : cachedTag p s' (lineIx p i.address) = addressTag p i.address := by
      rw [cachedTag, hnew, tagWord_tag p true hlt]
    constructor
    · intro _
      exact hvalid'
    · intro _ c hc
      have hold := (h _ hl).cached hvalid c hc
      rw [← hsame] at hold
      rw [hcolumn, columnNext_of_write hg hwrite hhit, hcached', hold]
      by_cases hcol : c = columnIx p i.address
      · subst hcol
        rw [if_pos ⟨rfl, rfl⟩, WordMemory.write_same]
      · rw [if_neg fun hand ↦ hcol hand.1, WordMemory.write_of_ne]
        intro heq
        exact hcol (word_inj hmode hc hco hl hl heq).2.2
    · rw [hcached']
      intro t ht htagged c hc
      have hother : addressTag p i.address ≠ t := htagged hdirty'
      rw [WordMemory.write_of_ne]
      · apply (h _ hl).stored t ht _ c hc
        rw [← hsame]
        exact fun _ ↦ hother
      · intro heq
        exact hother (word_inj hmode hc hco hl hl heq).1.symm
  · refine (h l hl).frame ?_ ?_ ?_ fun _ _ _ _ _ ↦ rfl
    · rw [htag, Function.update_of_ne hline]
    · intro c hc
      rw [hcolumn, columnNext_of_write hg hwrite hhit, if_neg fun hand ↦ hline hand.2]
    · intro t ht c hc
      apply WordMemory.write_of_ne
      intro heq
      exact hline (word_inj hmode hc hco hl hlo heq).2.1

/-- A cycle outside bursts applies the write it accepts. -/
theorem CoherentLines.serve (hmode : p.ramAddressingMode = 2) {i : Input}
    (hg : Gates s false shut false) (hidle : i.writeEnable ≠ 0#4 → i.enable = true)
    (h : CoherentLines p s d M) (htag : s'.tag = tagNext p i s)
    (hcolumn : s'.column = columnNext p i s) :
    CoherentLines p s' d (M.writeAll (accepted p i s)) := by
  by_cases hwrite : i.writeEnable = 0#4
  · obtain ⟨hread, hcolumns⟩ := memory_of_read (p := p) hg hwrite
    have hnone : accepted p i s = [] := by simp [accepted, hwrite]
    rw [hnone, WordMemory.writeAll_nil]
    exact h.congr (htag.trans hread) (hcolumn.trans hcolumns)
  · have henable := hidle hwrite
    cases hhit : cacheLineHit p i s with
    | false =>
        obtain ⟨hread, hcolumns⟩ := memory_of_miss hg hhit
        have hnone : accepted p i s = [] := by simp [accepted, busy, henable, hhit]
        rw [hnone, WordMemory.writeAll_nil]
        exact h.congr (htag.trans hread) (hcolumn.trans hcolumns)
    | true =>
        have hone : accepted p i s =
            [⟨wordAddress p i.address, i.writeEnable, i.dataIn⟩] := by
          simp [accepted, busy, henable, hhit, hwrite]
        rw [hone, WordMemory.writeAll_singleton]
        exact h.write hmode hg hwrite hhit htag hcolumn

end Lines

/-! ## The SDRAM in each state of the machine -/

section Agreement

variable (p : Params)

/-- ACTIVE for the row of `a` is on the wires or has been carried out. -/
structure Activating (s : Regs) (m : Sdram) (a : ℕ) : Prop
    extends m.Settled p.waitsPriorToDataAtRead where
  before : s.iSdrcCmdEn = true → m.openRow = none ∧ m.pending = false
  after : s.iSdrcCmdEn = false → m.openRow = some (rowOf a)

/-- The first `j` columns of the evicted line are stored. -/
structure Draining (i : Input) (s : Regs) (m : Sdram) (j : ℕ) : Prop where
  done : m.readDone p.waitsPriorToDataAtRead = true
  first : j = 0 → m.writing = none ∧ m.openRow = some (rowOf (victim p i s)) ∧ m.pending = false
  later : j ≠ 0 → m.openRow = none ∧
    m.writing = Sdram.continueWrite (p.columnCount - j) (victim p i s + j)
  stored : ∀ c < j, m.data (victim p i s + c) = columnDataOut p i s c

/-- READ for the requested line was presented `k` cycles ago. -/
structure Delivering (i : Input) (m : Sdram) (k : ℕ) : Prop where
  writing_eq : m.writing = none
  pending_eq : m.pending = false
  first : k = 0 → m.openRow = some (rowOf (wanted p i)) ∧
    m.readDone p.waitsPriorToDataAtRead = true
  later : k ≠ 0 → m.openRow = none ∧ m.reading = some ⟨wanted p i, p.columnCount - 1, k⟩

/-- The first `k` columns of the line are refilled and word `k` is next. -/
structure Filled (i : Input) (s : Regs) (M : WordMemory) (k : ℕ) : Prop where
  columns : ∀ c < k, s.column c (lineIx p i.address) = M (wanted p i + c)
  next : s.burstDataIn = M (wanted p i + k)

/-- How the SDRAM, the cached lines and the client's memory agree. -/
def Agrees (i : Input) (s : Regs) (m : Sdram) (M : WordMemory) : Prop :=
  match s.state with
  | .idle => m.Quiet p.waitsPriorToDataAtRead ∧ CoherentLines p s m.data M
  | .refresh =>
      (m.Settled p.waitsPriorToDataAtRead ∧ m.openRow = none ∧
        (s.iSdrcCmdEn = true → m.pending = false)) ∧ CoherentLines p s m.data M
  | .write1 => Activating p s m (victim p i s) ∧ CoherentLines p s m.data M
  | .write2 => Draining p i s m (s.counter - 1) ∧ CoherentLines p s m.data M
  | .write3 =>
      (Draining p i s m (p.columnCount - 1) ∨ Draining p i s m p.columnCount) ∧
        CoherentLines p s m.data M
  | .read1 => Activating p s m (wanted p i) ∧ Refilling p s m.data M (lineIx p i.address)
  | .read2 => Delivering p i m s.counter ∧ Refilling p s m.data M (lineIx p i.address)
  | .read3 =>
      Delivering p i m (p.waitsPriorToDataAtRead + s.counter) ∧
        Refilling p s m.data M (lineIx p i.address) ∧ Filled p i s M (s.counter - 1)
  | .read4 =>
      Delivering p i m (p.waitsPriorToDataAtRead + p.columnCount) ∧
        Refilling p s m.data M (lineIx p i.address) ∧ Filled p i s M (p.columnCount - 1)

variable {p} {i j : Input} {s s' : Regs} {m : Sdram} {M : WordMemory}

theorem victim_fits (hmode : p.ramAddressingMode = 2) :
    victim p i s % 256 + (p.columnCount - 1) < 256 := lineAddress_fits hmode _ _

theorem wanted_fits (hmode : p.ramAddressingMode = 2) :
    wanted p i % 256 + (p.columnCount - 1) < 256 := lineAddress_fits hmode _ _

theorem Activating.supported {a : ℕ} (h : Activating p s m a)
    (hcmd : s.iSdrcCmdEn = true → s.iSdrcCmd = cmdActive) :
    m.supported p.waitsPriorToDataAtRead s.bus = true := by
  cases hen : s.iSdrcCmdEn with
  | false => exact Sdram.supported_of_not_en hen
  | true =>
      obtain ⟨hrow, hpending⟩ := h.before hen
      exact Sdram.Quiet.supported ⟨h.toSettled, hrow, hpending⟩ (.inr (hcmd hen))

/-- Every command of the cache is one the controller supports. -/
theorem Agrees.supported (hmode : p.ramAddressingMode = 2) (hcontrol : Control p i s)
    (h : Agrees p i s m M) : m.supported p.waitsPriorToDataAtRead s.bus = true := by
  cases hcontrol with
  | idle hs => exact Sdram.supported_of_not_en hs.en
  | refresh hs =>
      simp only [Agrees, hs.state_eq] at h
      obtain ⟨⟨hsettled, hrow, hpending⟩, -⟩ := h
      cases hen : s.iSdrcCmdEn with
      | false => exact Sdram.supported_of_not_en hen
      | true =>
          exact Sdram.Quiet.supported ⟨hsettled, hrow, hpending hen⟩ (.inl (hs.cmd hen))
  | write1 hs =>
      simp only [Agrees, hs.state_eq] at h
      exact h.1.supported fun hen ↦ (hs.cmd hen).cmd_eq
  | write2 hs =>
      simp only [Agrees, hs.state_eq] at h
      have hpos := hs.counter_pos
      by_cases hone : s.counter = 1
      · obtain ⟨hwriting, hrow, hpending⟩ := h.1.first (by omega)
        obtain ⟨⟨hen, hcmd, haddr⟩, hlen⟩ := hs.first hone
        refine Sdram.Settled.supported ⟨hwriting, h.1.done⟩ (.inl hcmd) ?_ hpending ?_
        · rw [hrow, ← haddr]
          rfl
        · change s.iSdrcAddr % 256 + s.iSdrcDataLen < 256
          rw [haddr, hlen]
          exact victim_fits hmode
      · exact Sdram.supported_of_not_en (hs.later hone)
  | write3 hs => exact Sdram.supported_of_not_en hs.en
  | read1 hs =>
      simp only [Agrees, hs.state_eq] at h
      exact h.1.supported fun hen ↦ (hs.cmd hen).cmd_eq
  | read2 hs =>
      simp only [Agrees, hs.state_eq] at h
      by_cases hzero : s.counter = 0
      · obtain ⟨hrow, hdone⟩ := h.1.first hzero
        obtain ⟨⟨hen, hcmd, haddr⟩, hlen⟩ := hs.first hzero
        refine Sdram.Settled.supported ⟨h.1.writing_eq, hdone⟩ (.inr hcmd) ?_ h.1.pending_eq ?_
        · rw [hrow, ← haddr]
          rfl
        · change s.iSdrcAddr % 256 + s.iSdrcDataLen < 256
          rw [haddr, hlen]
          exact wanted_fits hmode
      · exact Sdram.supported_of_not_en (hs.later hzero)
  | read3 hs => exact Sdram.supported_of_not_en hs.en
  | read4 hs => exact Sdram.supported_of_not_en hs.en

/-! ## One cycle of each transfer -/

/-- One cycle after which the row of `a` is open. -/
theorem Activating.step {a : ℕ} (h : Activating p s m a)
    (hcmd : s.iSdrcCmdEn = true → Presents s cmdActive a) (ack : Bool) :
    (m.step s.bus ack).Settled p.waitsPriorToDataAtRead ∧
      (m.step s.bus ack).openRow = some (rowOf a) ∧
      (m.step s.bus ack).data = m.data ∧
      (ack = true → (m.step s.bus ack).pending = false) := by
  cases hen : s.iSdrcCmdEn with
  | false =>
      rw [Sdram.step_wait (by exact hen) h.writing_eq]
      refine ⟨⟨h.writing_eq, Sdram.readDone_next h.done _ _ _ _⟩, h.after hen, rfl, ?_⟩
      intro hack
      simp [hack]
  | true =>
      obtain ⟨-, hactive, haddr⟩ := hcmd hen
      rw [Sdram.step_active (by exact hen) (by exact hactive)]
      refine ⟨⟨h.writing_eq, Sdram.readDone_next h.done _ _ _ _⟩, ?_, rfl, ?_⟩
      · change some (rowOf s.iSdrcAddr) = _
        rw [haddr]
      · intro hack
        simp [hack]

/-- One cycle of an eviction stores the column on the data wires. -/
theorem Draining.step {k : ℕ} (h : Draining p i s m k) (hk : k < p.columnCount)
    (hfirst : k = 0 → Presents s cmdWrite (victim p i s) ∧ s.iSdrcDataLen = p.columnCount - 1)
    (hlater : k ≠ 0 → s.iSdrcCmdEn = false) (hdata : s.iSdrcData = columnDataOut p i s k)
    (ack : Bool) :
    Draining p i s (m.step s.bus ack) (k + 1) ∧
      (m.step s.bus ack).data =
        Function.update m.data (victim p i s + k) (columnDataOut p i s k) := by
  have hstored : ∀ c < k + 1, Function.update m.data (victim p i s + k)
      (columnDataOut p i s k) (victim p i s + c) = columnDataOut p i s c := by
    intro c hc
    by_cases heq : c = k
    · rw [heq, Function.update_self]
    · rw [Function.update_of_ne (by omega)]
      exact h.stored c (by omega)
  by_cases hzero : k = 0
  · subst hzero
    obtain ⟨⟨hen, hcmd, haddr⟩, hlen⟩ := hfirst rfl
    have hwords : Function.update m.data s.iSdrcAddr s.iSdrcData =
        Function.update m.data (victim p i s + 0) (columnDataOut p i s 0) := by
      rw [haddr, hdata, Nat.add_zero]
    rw [Sdram.step_write (by exact hen) (by exact hcmd)]
    refine ⟨⟨Sdram.readDone_next h.done _ _ _ _, ?_, ?_, ?_⟩, hwords⟩
    · intro habsurd
      exact absurd habsurd (Nat.succ_ne_zero 0)
    · intro _
      refine ⟨rfl, ?_⟩
      change Sdram.continueWrite s.iSdrcDataLen (s.iSdrcAddr + 1) = _
      rw [hlen, haddr]
    · intro c hc
      change Function.update m.data s.iSdrcAddr s.iSdrcData _ = _
      rw [hwords]
      exact hstored c hc
  · obtain ⟨hrow, hwriting⟩ := h.later hzero
    have hleft : p.columnCount - k ≠ 0 := by omega
    rw [Sdram.continueWrite, if_neg hleft] at hwriting
    have hwords : Function.update m.data (victim p i s + k) s.iSdrcData =
        Function.update m.data (victim p i s + k) (columnDataOut p i s k) := by rw [hdata]
    rw [Sdram.step_storing (by exact hlater hzero) hwriting]
    refine ⟨⟨Sdram.readDone_next h.done _ _ _ _, ?_, ?_, ?_⟩, hwords⟩
    · intro habsurd
      exact absurd habsurd (Nat.succ_ne_zero k)
    · intro _
      exact ⟨hrow, by rw [Nat.sub_sub]; rfl⟩
    · intro c hc
      change Function.update m.data (victim p i s + k) s.iSdrcData _ = _
      rw [hwords]
      exact hstored c hc

/-- A complete eviction leaves the SDRAM waiting. -/
theorem Draining.drained (h : Draining p i s m p.columnCount) :
    m.Settled p.waitsPriorToDataAtRead ∧ m.openRow = none := by
  have hcount := two_le_columnCount p
  obtain ⟨hrow, hwriting⟩ := h.later (by omega)
  rw [Nat.sub_self] at hwriting
  exact ⟨⟨hwriting, h.done⟩, hrow⟩

theorem Draining.wait (h : Draining p i s m p.columnCount) (hen : s.iSdrcCmdEn = false)
    (ack : Bool) :
    Draining p i s (m.step s.bus ack) p.columnCount ∧ (m.step s.bus ack).data = m.data := by
  obtain ⟨hsettled, hrow⟩ := h.drained
  rw [Sdram.step_wait (by exact hen) hsettled.writing_eq]
  refine ⟨⟨Sdram.readDone_next h.done _ _ _ _, ?_, ?_, h.stored⟩, rfl⟩
  · have hcount := two_le_columnCount p
    intro hzero
    omega
  · exact h.later

/-- One cycle of a read burst. -/
theorem Delivering.step {k : ℕ} (h : Delivering p i m k)
    (hfirst : k = 0 → Presents s cmdRead (wanted p i) ∧ s.iSdrcDataLen = p.columnCount - 1)
    (hlater : k ≠ 0 → s.iSdrcCmdEn = false) (ack : Bool) :
    Delivering p i (m.step s.bus ack) (k + 1) ∧ (m.step s.bus ack).data = m.data := by
  by_cases hzero : k = 0
  · subst hzero
    obtain ⟨⟨hen, hcmd, haddr⟩, hlen⟩ := hfirst rfl
    rw [Sdram.step_read (by exact hen) (by exact hcmd)]
    refine ⟨⟨h.writing_eq, h.pending_eq, ?_, ?_⟩, rfl⟩
    · intro habsurd
      exact absurd habsurd (Nat.succ_ne_zero 0)
    · intro _
      refine ⟨rfl, ?_⟩
      change some (ReadBurst.mk s.iSdrcAddr s.iSdrcDataLen 1) = _
      rw [haddr, hlen]
  · obtain ⟨hrow, hreading⟩ := h.later hzero
    rw [Sdram.step_wait (by exact hlater hzero) h.writing_eq]
    refine ⟨⟨h.writing_eq, ?_, ?_, ?_⟩, rfl⟩
    · simp [h.pending_eq]
    · intro habsurd
      exact absurd habsurd (Nat.succ_ne_zero k)
    · intro _
      refine ⟨hrow, ?_⟩
      simp [hreading, ReadBurst.next]

/-- Word `c` is on the wires when READ is `WaitsPriorToDataAtRead + c` cycles old. -/
theorem Delivering.word {c : ℕ} (h : Delivering p i m (p.waitsPriorToDataAtRead + c))
    (hsupported : m.supported p.waitsPriorToDataAtRead s.bus = true) (hc : c < p.columnCount)
    (hfirst : p.waitsPriorToDataAtRead + c = 0 →
      Presents s cmdRead (wanted p i) ∧ s.iSdrcDataLen = p.columnCount - 1)
    (hlater : p.waitsPriorToDataAtRead + c ≠ 0 → s.iSdrcCmdEn = false) (junk : Word) :
    m.readData p.waitsPriorToDataAtRead s.bus junk = m.data (wanted p i + c) := by
  suffices hread : Sdram.currentRead s.bus m =
      some ⟨wanted p i, p.columnCount - 1, p.waitsPriorToDataAtRead + c⟩ from
    Sdram.readData_of_due hsupported hread (by omega)
  by_cases hzero : p.waitsPriorToDataAtRead + c = 0
  · obtain ⟨⟨hen, hcmd, haddr⟩, hlen⟩ := hfirst hzero
    have hwires : s.bus.cmdEn = true ∧ s.bus.cmd = cmdRead := ⟨hen, hcmd⟩
    rw [Sdram.currentRead, if_pos hwires, hzero, ← haddr, ← hlen]
    rfl
  · have hwires : ¬(s.bus.cmdEn = true ∧ s.bus.cmd = cmdRead) := by
      rintro ⟨hen, -⟩
      exact Bool.false_ne_true ((hlater hzero).symm.trans hen)
    rw [Sdram.currentRead, if_neg hwires]
    exact (h.later hzero).2

/-! ## Held requests and refilled columns -/

theorem Draining.congr {k : ℕ} (h : Draining p i s m k) (hsame : SameRequest i j)
    (htag : s'.tag = s.tag) (hcolumn : s'.column = s.column) : Draining p j s' m k := by
  have hvictim : victim p j s' = victim p i s := victim_congr htag hsame
  constructor
  · exact h.done
  · rw [hvictim]
    exact h.first
  · rw [hvictim]
    exact h.later
  · intro c hc
    rw [hvictim, columnDataOut_congr hcolumn hsame]
    exact h.stored c hc

theorem Delivering.congr {k : ℕ} (h : Delivering p i m k) (hsame : SameRequest i j) :
    Delivering p j m k := by
  have hwanted : wanted p j = wanted p i := wanted_congr hsame
  constructor
  · exact h.writing_eq
  · exact h.pending_eq
  · rw [hwanted]
    exact h.first
  · rw [hwanted]
    exact h.later

theorem Filled.congr {k : ℕ} (h : Filled p i s M k) (hsame : SameRequest i j)
    (hcolumn : s'.column = s.column) (hnext : s'.burstDataIn = s.burstDataIn) :
    Filled p j s' M k := by
  constructor
  · rw [hcolumn, hsame.lineIx_eq, wanted_congr hsame]
    exact h.columns
  · rw [hnext, wanted_congr hsame]
    exact h.next

theorem Refilling.word {c : ℕ} (h : Refilling p s m.data M (lineIx p i.address))
    (hc : c < p.columnCount) : m.data (wanted p i + c) = M (wanted p i + c) :=
  h.flushed _ (addressTag_lt p i.address) c hc

/-- The words of a read burst older than its length have all been delivered. -/
theorem Delivering.quiet {k : ℕ} (h : Delivering p i m k)
    (hk : p.waitsPriorToDataAtRead + p.columnCount ≤ k) :
    m.Quiet p.waitsPriorToDataAtRead := by
  have hcount := two_le_columnCount p
  obtain ⟨hrow, hreading⟩ := h.later (by omega)
  refine ⟨⟨h.writing_eq, ?_⟩, hrow, h.pending_eq⟩
  simp only [Sdram.readDone, hreading, Option.all_some, decide_eq_true_eq]
  omega

/-- The column whose gate is open receives the next word. -/
theorem Filled.columns_succ {k : ℕ} {tag : Bool} (h : Filled p i s M k)
    (hg : Gates s true (only k) tag) :
    ∀ c < k + 1, columnNext p i s c (lineIx p i.address) = M (wanted p i + c) := by
  intro c hc
  rw [columnNext_of_filling hg]
  by_cases heq : c = k
  · rw [heq, Function.update_self, Function.update_self]
    exact h.next
  · rw [Function.update_of_ne heq]
    exact h.columns c (by omega)

/-- A refill touches no column of another line. -/
theorem columnNext_of_other {k l : ℕ} {tag : Bool} (hg : Gates s true (only k) tag)
    (hl : l ≠ lineIx p i.address) (c : ℕ) : columnNext p i s c l = s.column c l := by
  rw [columnNext_of_filling hg]
  by_cases heq : c = k
  · rw [heq, Function.update_self, Function.update_of_ne hl]
  · rw [Function.update_of_ne heq]

theorem Refilling.fill {k : ℕ} {tag : Bool} (h : Refilling p s m.data M (lineIx p i.address))
    (hg : Gates s true (only k) tag) (htag : s'.tag = s.tag)
    (hcolumn : s'.column = columnNext p i s) :
    Refilling p s' m.data M (lineIx p i.address) := by
  refine ⟨fun l hl hne ↦ ?_, h.flushed⟩
  refine (h.others l hl hne).frame (by rw [htag]) ?_ (fun _ _ _ _ ↦ rfl) fun _ _ _ _ _ ↦ rfl
  intro c _
  rw [hcolumn, columnNext_of_other hg hne]

/-- The tag write makes a refilled line coherent. -/
theorem Refilling.complete (h : Refilling p s m.data M (lineIx p i.address))
    (hg : Gates s true (only (p.columnCount - 1)) true)
    (hfilled : Filled p i s M (p.columnCount - 1)) (htag : s'.tag = tagNext p i s)
    (hcolumn : s'.column = columnNext p i s) : CoherentLines p s' m.data M := by
  have hcount := two_le_columnCount p
  have hlt := addressTag_lt p i.address
  rw [tagNext_of_filled hg] at htag
  intro l hl
  by_cases hline : l = lineIx p i.address
  · subst hline
    have hnew : s'.tag (lineIx p i.address) = tagWord p false (addressTag p i.address) := by
      rw [htag, Function.update_self]
    have hclean : lineDirty p s' (lineIx p i.address) = false := by
      rw [lineDirty, hnew, tagWord_dirty p false hlt]
    have hcached : cachedTag p s' (lineIx p i.address) = addressTag p i.address := by
      rw [cachedTag, hnew, tagWord_tag p false hlt]
    constructor
    · intro hdirty
      exact absurd (hclean.symm.trans hdirty) Bool.false_ne_true
    · intro _ c hc
      rw [hcached, hcolumn]
      exact hfilled.columns_succ hg c (by omega)
    · intro t ht _
      exact h.flushed t ht
  · refine (h.others l hl hline).frame ?_ ?_ (fun _ _ _ _ ↦ rfl) fun _ _ _ _ _ ↦ rfl
    · rw [htag, Function.update_of_ne hline]
    · intro c _
      rw [hcolumn, columnNext_of_other hg hline]

/-! ## Agreement after one clock edge -/

theorem Quiet.step {w : ℕ} (h : m.Quiet w) (hen : s.iSdrcCmdEn = false) (ack : Bool) :
    (m.step s.bus ack).Quiet w ∧ (m.step s.bus ack).data = m.data := by
  rw [Sdram.step_wait (by exact hen) h.writing_eq]
  exact ⟨⟨⟨h.writing_eq, Sdram.readDone_next h.done _ _ _ _⟩, h.openRow_eq,
    by simp [h.pending_eq]⟩, rfl⟩

/-- One cycle of an auto-refresh. -/
theorem refresh_step {w : ℕ} (h : m.Settled w) (hrow : m.openRow = none)
    (hcmd : s.iSdrcCmdEn = true → s.iSdrcCmd = cmdAutoRefresh) (ack : Bool) :
    (m.step s.bus ack).Settled w ∧ (m.step s.bus ack).openRow = none ∧
      (m.step s.bus ack).data = m.data ∧ (ack = true → (m.step s.bus ack).pending = false) := by
  cases hen : s.iSdrcCmdEn with
  | false =>
      rw [Sdram.step_wait (by exact hen) h.writing_eq]
      refine ⟨⟨h.writing_eq, Sdram.readDone_next h.done _ _ _ _⟩, hrow, rfl, ?_⟩
      intro hack
      simp [hack]
  | true =>
      rw [Sdram.step_refresh (by exact hen) (by exact hcmd hen)]
      refine ⟨⟨h.writing_eq, Sdram.readDone_next h.done _ _ _ _⟩, hrow, rfl, ?_⟩
      intro hack
      simp [hack]

theorem AtIdle.agrees (hs : AtIdle s) :
    Agrees p i s m M = (m.Quiet p.waitsPriorToDataAtRead ∧ CoherentLines p s m.data M) := by
  simp only [Agrees, hs.state_eq]

theorem Agrees.evict (hs : AtWrite2 p i s) (h : Agrees p i s m M)
    (hmode : p.ramAddressingMode = 2) (ack : Bool) :
    Draining p i s (m.step s.bus ack) s.counter ∧
      CoherentLines p s (m.step s.bus ack).data M := by
  simp only [Agrees, hs.state_eq] at h
  have hpos := hs.counter_pos
  have hlt := hs.counter_lt
  have hk : s.counter - 1 + 1 = s.counter := by omega
  obtain ⟨hdrain, hdata⟩ := h.1.step (by omega) (fun hzero ↦ hs.first (by omega))
    (fun hne ↦ hs.later (by omega)) hs.data ack
  rw [hk] at hdrain
  refine ⟨hdrain, ?_⟩
  rw [hdata]
  exact h.2.store hmode _ (lineIx_lt p i.address) hs.dirty (by omega)

/-- Whether or not the last column was stored before, it is now. -/
theorem Agrees.evict_last (hs : AtWrite3 p i s) (h : Agrees p i s m M)
    (hmode : p.ramAddressingMode = 2) (ack : Bool) :
    Draining p i s (m.step s.bus ack) p.columnCount ∧
      CoherentLines p s (m.step s.bus ack).data M := by
  have hcount := two_le_columnCount p
  simp only [Agrees, hs.state_eq] at h
  obtain ⟨hdrain | hdrain, hlines⟩ := h
  · have hk : p.columnCount - 1 + 1 = p.columnCount := by omega
    obtain ⟨hdrain, hdata⟩ := hdrain.step (by omega) (fun hzero ↦ by omega)
      (fun _ ↦ hs.en) hs.data ack
    rw [hk] at hdrain
    refine ⟨hdrain, ?_⟩
    rw [hdata]
    exact hlines.store hmode _ (lineIx_lt p i.address) hs.dirty (by omega)
  · obtain ⟨hdrain, hdata⟩ := hdrain.wait hs.en ack
    exact ⟨hdrain, hdata ▸ hlines⟩

/-- The ACK that ends an eviction completes its WRITE. -/
theorem AtWrite3.acked (hs : AtWrite3 p i s) {ack : Bool} (hack : ack = true) :
    (m.step s.bus ack).pending = false := by
  have hen : s.bus.cmdEn = false := hs.en
  cases hwriting : m.writing with
  | none =>
      rw [Sdram.step_wait hen hwriting]
      simp [hack]
  | some w =>
      rw [Sdram.step_storing hen hwriting]
      simp [hack]

/-- One cycle of a refill writes the last word received and receives the next. -/
theorem Agrees.receive (hs : AtRead3 p i s) (h : Agrees p i s m M)
    (hsupported : m.supported p.waitsPriorToDataAtRead s.bus = true) {junk : Word}
    (hdata : i.oSdrcData = m.readData p.waitsPriorToDataAtRead s.bus junk) (ack : Bool) :
    Delivering p i (m.step s.bus ack) (p.waitsPriorToDataAtRead + (s.counter + 1)) ∧
      (m.step s.bus ack).data = m.data ∧
      Refilling p { s with column := columnNext p i s } m.data M (lineIx p i.address) ∧
      Filled p i { s with column := columnNext p i s, burstDataIn := i.oSdrcData } M
        s.counter := by
  have hpos := hs.counter_pos
  have hlt := hs.counter_lt
  simp only [Agrees, hs.state_eq] at h
  obtain ⟨hread, hrefill, hfilled⟩ := h
  obtain ⟨hnext, hwords⟩ := hread.step (fun hzero ↦ by omega) (fun _ ↦ hs.en) ack
  have hothers : Refilling p { s with column := columnNext p i s } m.data M
      (lineIx p i.address) := hrefill.fill hs.gates rfl rfl
  refine ⟨hnext, hwords, hothers, ?_, ?_⟩
  · intro c hc
    exact hfilled.columns_succ hs.gates c (by omega)
  · change i.oSdrcData = _
    rw [hdata, hread.word hsupported hlt (fun hzero ↦ by omega) (fun _ ↦ hs.en) junk,
      hrefill.word hlt]

theorem Agrees.step (hmode : p.ramAddressingMode = 2) {junk : Word} (hedge : Edge p i s s')
    (hcontrol : Control p i s) (h : Agrees p i s m M)
    (hheld : busy p i s = true → SameRequest i j)
    (hidle : i.writeEnable ≠ 0#4 → i.enable = true)
    (hdata : i.oSdrcData = m.readData p.waitsPriorToDataAtRead s.bus junk) :
    Agrees p j s' (m.step s.bus i.oSdrcCmdAck) (M.writeAll (accepted p i s)) := by
  have hcount := two_le_columnCount p
  have hsupported := h.supported hmode hcontrol
  cases hedge with
  | idleRefresh hs due =>
      rw [hs.agrees] at h
      obtain ⟨hquiet, hwords⟩ := Quiet.step h.1 hs.en i.oSdrcCmdAck
      simp only [Agrees, hwords]
      exact ⟨⟨hquiet.toSettled, hquiet.openRow_eq, fun _ ↦ hquiet.pending_eq⟩,
        h.2.serve hmode hs.gates hidle rfl rfl⟩
  | idleEvict hs early pending dirty =>
      have hsame := hheld pending.busy
      rw [hs.agrees] at h
      obtain ⟨hquiet, hwords⟩ := Quiet.step h.1 hs.en i.oSdrcCmdAck
      simp only [Agrees, hwords, accepted_of_busy pending.busy, WordMemory.writeAll_nil]
      refine ⟨⟨hquiet.toSettled, fun _ ↦ ⟨hquiet.openRow_eq, hquiet.pending_eq⟩, ?_⟩,
        h.2.congr rfl rfl⟩
      intro hen
      exact absurd hen.symm Bool.false_ne_true
  | idleFill hs early pending clean =>
      have hsame := hheld pending.busy
      rw [hs.agrees] at h
      obtain ⟨hquiet, hwords⟩ := Quiet.step h.1 hs.en i.oSdrcCmdAck
      simp only [Agrees, hwords, accepted_of_busy pending.busy, WordMemory.writeAll_nil,
        hsame.lineIx_eq]
      refine ⟨⟨hquiet.toSettled, fun _ ↦ ⟨hquiet.openRow_eq, hquiet.pending_eq⟩, ?_⟩,
        (h.2.refill (lineIx_lt p i.address) clean).congr rfl rfl⟩
      intro hen
      exact absurd hen.symm Bool.false_ne_true
  | idleServe hs early free =>
      rw [hs.agrees] at h
      obtain ⟨hquiet, hwords⟩ := Quiet.step h.1 hs.en i.oSdrcCmdAck
      simp only [Agrees, hs.state_eq, hwords]
      exact ⟨hquiet, h.2.serve hmode hs.gates hidle rfl rfl⟩
  | refreshDone hs ack =>
      simp only [Agrees, hs.state_eq] at h
      obtain ⟨⟨hsettled, hrow, -⟩, hlines⟩ := h
      obtain ⟨hsettled, hrow, hwords, hpending⟩ :=
        refresh_step hsettled hrow hs.cmd i.oSdrcCmdAck
      simp only [Agrees, hwords]
      exact ⟨⟨hsettled, hrow, hpending ack⟩, hlines.serve hmode hs.gates hidle rfl rfl⟩
  | refreshWait hs ack =>
      simp only [Agrees, hs.state_eq] at h
      obtain ⟨⟨hsettled, hrow, -⟩, hlines⟩ := h
      obtain ⟨hsettled, hrow, hwords, -⟩ := refresh_step hsettled hrow hs.cmd i.oSdrcCmdAck
      simp only [Agrees, hs.state_eq, hwords]
      refine ⟨⟨hsettled, hrow, ?_⟩, hlines.serve hmode hs.gates hidle rfl rfl⟩
      intro hen
      exact absurd hen Bool.false_ne_true
  | write1Done hs ack =>
      have hsame := hheld hs.busy
      simp only [Agrees, hs.state_eq] at h
      obtain ⟨hsettled, hrow, hwords, hpending⟩ := h.1.step hs.cmd i.oSdrcCmdAck
      simp only [Agrees, hwords, accepted_of_busy hs.busy, WordMemory.writeAll_nil]
      have hdrain : Draining p i s (m.step s.bus i.oSdrcCmdAck) 0 :=
        ⟨hsettled.done, fun _ ↦ ⟨hsettled.writing_eq, hrow, hpending ack⟩,
          fun hne ↦ absurd rfl hne, fun c hc ↦ absurd hc (Nat.not_lt_zero c)⟩
      exact ⟨hdrain.congr hsame rfl rfl, h.2.congr rfl rfl⟩
  | write1Wait hs ack =>
      have hsame := hheld hs.busy
      simp only [Agrees, hs.state_eq] at h
      obtain ⟨hsettled, hrow, hwords, -⟩ := h.1.step hs.cmd i.oSdrcCmdAck
      simp only [Agrees, hs.state_eq, hwords, accepted_of_busy hs.busy, WordMemory.writeAll_nil]
      refine ⟨⟨hsettled, ?_, fun _ ↦ ?_⟩, h.2.congr rfl rfl⟩
      · intro hen
        exact absurd hen Bool.false_ne_true
      · rw [hrow]
        exact congrArg _ (congrArg _ (victim_congr rfl hsame).symm)
  | write2Next hs more =>
      have hsame := hheld hs.busy
      obtain ⟨hdrain, hlines⟩ := h.evict hs hmode i.oSdrcCmdAck
      simp only [Agrees, hs.state_eq, accepted_of_busy hs.busy, WordMemory.writeAll_nil,
        Nat.add_sub_cancel]
      exact ⟨hdrain.congr hsame rfl rfl, hlines.congr rfl rfl⟩
  | write2Last hs last =>
      have hsame := hheld hs.busy
      obtain ⟨hdrain, hlines⟩ := h.evict hs hmode i.oSdrcCmdAck
      have hk : s.counter = p.columnCount - 1 := by omega
      rw [hk] at hdrain
      simp only [Agrees, accepted_of_busy hs.busy, WordMemory.writeAll_nil]
      exact ⟨.inl (hdrain.congr hsame rfl rfl), hlines.congr rfl rfl⟩
  | write3Done hs ack =>
      have hsame := hheld hs.busy
      obtain ⟨hdrain, hlines⟩ := h.evict_last hs hmode i.oSdrcCmdAck
      obtain ⟨hsettled, hrow⟩ := hdrain.drained
      have hrefill := hlines.refill_of_stored (lineIx_lt p i.address) hs.dirty hdrain.stored
      have hpending : (m.step s.bus i.oSdrcCmdAck).pending = false := hs.acked ack
      simp only [Agrees, accepted_of_busy hs.busy, WordMemory.writeAll_nil, hsame.lineIx_eq]
      refine ⟨⟨hsettled, fun _ ↦ ⟨hrow, hpending⟩, ?_⟩, hrefill.congr rfl rfl⟩
      intro hen
      exact absurd hen.symm Bool.false_ne_true
  | write3Wait hs ack =>
      have hsame := hheld hs.busy
      obtain ⟨hdrain, hlines⟩ := h.evict_last hs hmode i.oSdrcCmdAck
      simp only [Agrees, hs.state_eq, accepted_of_busy hs.busy, WordMemory.writeAll_nil]
      exact ⟨.inr (hdrain.congr hsame rfl rfl), hlines.congr rfl rfl⟩
  | read1Done hs ack =>
      have hsame := hheld hs.busy
      simp only [Agrees, hs.state_eq] at h
      obtain ⟨hsettled, hrow, hwords, hpending⟩ := h.1.step hs.cmd i.oSdrcCmdAck
      simp only [Agrees, hwords, accepted_of_busy hs.busy, WordMemory.writeAll_nil,
        hsame.lineIx_eq]
      have hready : Delivering p i (m.step s.bus i.oSdrcCmdAck) 0 :=
        ⟨hsettled.writing_eq, hpending ack, fun _ ↦ ⟨hrow, hsettled.done⟩,
          fun hne ↦ absurd rfl hne⟩
      exact ⟨hready.congr hsame, h.2.congr rfl rfl⟩
  | read1Wait hs ack =>
      have hsame := hheld hs.busy
      simp only [Agrees, hs.state_eq] at h
      obtain ⟨hsettled, hrow, hwords, -⟩ := h.1.step hs.cmd i.oSdrcCmdAck
      simp only [Agrees, hs.state_eq, hwords, accepted_of_busy hs.busy, WordMemory.writeAll_nil,
        hsame.lineIx_eq, wanted_congr hsame]
      refine ⟨⟨hsettled, ?_, fun _ ↦ hrow⟩, h.2.congr rfl rfl⟩
      intro hen
      exact absurd hen Bool.false_ne_true
  | read2Done hs arrived =>
      have hsame := hheld hs.busy
      simp only [Agrees, hs.state_eq] at h
      obtain ⟨hread, hrefill⟩ := h
      obtain ⟨hnext, hwords⟩ := hread.step hs.first hs.later i.oSdrcCmdAck
      have hword : i.oSdrcData = M (wanted p i + 0) := by
        have hpos : 0 < p.columnCount := by omega
        have hdue : Delivering p i m (p.waitsPriorToDataAtRead + 0) := arrived ▸ hread
        rw [hdata, hdue.word hsupported hpos (fun hzero ↦ hs.first (by omega))
          (fun hne ↦ hs.later (by omega)) junk, hrefill.word hpos]
      have hfilled : Filled p i { s with burstDataIn := i.oSdrcData } M 0 :=
        ⟨fun c hc ↦ absurd hc (Nat.not_lt_zero c), hword⟩
      rw [arrived] at hnext
      simp only [Agrees, hwords, accepted_of_busy hs.busy, WordMemory.writeAll_nil,
        hsame.lineIx_eq]
      exact ⟨hnext.congr hsame, hrefill.congr rfl rfl, (hfilled.congr hsame rfl rfl)⟩
  | read2Wait hs early =>
      have hsame := hheld hs.busy
      simp only [Agrees, hs.state_eq] at h
      obtain ⟨hnext, hwords⟩ := h.1.step hs.first hs.later i.oSdrcCmdAck
      simp only [Agrees, hs.state_eq, hwords, accepted_of_busy hs.busy, WordMemory.writeAll_nil,
        hsame.lineIx_eq]
      exact ⟨hnext.congr hsame, h.2.congr rfl rfl⟩
  | read3Next hs more =>
      have hsame := hheld hs.busy
      obtain ⟨hnext, hwords, hrefill, hfilled⟩ :=
        h.receive hs hsupported hdata i.oSdrcCmdAck
      simp only [Agrees, hs.state_eq, hwords, accepted_of_busy hs.busy, WordMemory.writeAll_nil,
        hsame.lineIx_eq, Nat.add_sub_cancel]
      exact ⟨hnext.congr hsame, hrefill.congr rfl rfl, hfilled.congr hsame rfl rfl⟩
  | read3Last hs last =>
      have hsame := hheld hs.busy
      obtain ⟨hnext, hwords, hrefill, hfilled⟩ :=
        h.receive hs hsupported hdata i.oSdrcCmdAck
      have hk : s.counter = p.columnCount - 1 := by omega
      rw [last] at hnext
      rw [hk] at hfilled
      simp only [Agrees, hwords, accepted_of_busy hs.busy, WordMemory.writeAll_nil,
        hsame.lineIx_eq]
      exact ⟨hnext.congr hsame, hrefill.congr rfl rfl, hfilled.congr hsame rfl rfl⟩
  | read4Done hs =>
      simp only [Agrees, hs.state_eq] at h
      obtain ⟨hread, hrefill, hfilled⟩ := h
      obtain ⟨hnext, hwords⟩ := hread.step (fun hzero ↦ by omega) (fun _ ↦ hs.en) i.oSdrcCmdAck
      simp only [Agrees, hwords, accepted_of_busy hs.busy, WordMemory.writeAll_nil]
      exact ⟨hnext.quiet (by omega), hrefill.complete hs.gates hfilled rfl rfl⟩

end Agreement

end TangNano.Cache
