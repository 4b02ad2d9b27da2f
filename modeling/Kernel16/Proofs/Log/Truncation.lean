import Kernel16.Log.Logger

/-!
# The capture buffer holds the front of the log

A record reaches the buffer in pieces, and each piece is cut at the end of the buffer.
Cutting piece by piece comes to the same as cutting once: the buffer holds the first bytes
of all lines since capturing was last switched, and the loss is remembered exactly when the
lines are longer than the buffer.  The cut can fall inside a character, so the text that is
handed out is the longest front of the lines that fits and ends between two characters.
-/

namespace Kernel16.Log

/-! ## Fronts of a text -/

/-- `s` is the longest front of `text` that takes `bound` bytes at most. -/
structure LongestFront (text : String) (bound : Nat) (s : String) : Prop where
  begins : ∃ rest, text = s ++ rest
  fits : s.utf8ByteSize ≤ bound
  longest : ∀ front rest, text = front ++ rest → front.utf8ByteSize ≤ bound →
    front.utf8ByteSize ≤ s.utf8ByteSize

theorem size_data_toUTF8 (s : String) : s.toUTF8.data.size = s.utf8ByteSize := rfl

theorem data_toUTF8_append (s t : String) :
    (s ++ t).toUTF8.data = s.toUTF8.data ++ t.toUTF8.data := by
  simp only [String.toUTF8_eq_toByteArray, String.toByteArray_append, ByteArray.data_append]

theorem extract_data_of_append (s rest : String) :
    (s ++ rest).toUTF8.data.extract 0 s.utf8ByteSize = s.toUTF8.data := by
  rw [data_toUTF8_append, ← size_data_toUTF8, Array.extract_append_left, Array.extract_size]

/-- The first bytes of a text are a text only when they end between two characters. -/
theorem eq_append_of_extract_data {text s : String} {n : Nat} (hn : n ≤ text.utf8ByteSize)
    (h : s.toUTF8.data = text.toUTF8.data.extract 0 n) :
    s.utf8ByteSize = n ∧ ∃ rest, text = s ++ rest := by
  have hbytes : s.toByteArray = text.toByteArray.extract 0 n := by
    apply ByteArray.ext
    rw [ByteArray.data_extract]
    exact h
  have hvalid : (⟨n⟩ : String.Pos.Raw).IsValid text := by
    rw [String.Pos.Raw.isValid_iff_isValidUTF8_extract_zero]
    refine ⟨hn, ?_⟩
    rw [← hbytes]
    exact s.isValidUTF8
  obtain ⟨front, rest, rfl, hend⟩ := String.Pos.Raw.isValid_iff_exists_append.mp hvalid
  have hsize : n = front.utf8ByteSize := congrArg String.Pos.Raw.byteIdx hend
  have hfront : s = front := by
    apply String.toByteArray_inj.mp
    apply ByteArray.ext
    rw [hsize, extract_data_of_append] at h
    exact h
  subst hfront
  exact ⟨hsize.symm, rest, rfl⟩

theorem data_of_fromUTF8? {bytes : Array UInt8} {s : String}
    (h : String.fromUTF8? ⟨bytes⟩ = some s) : s.toUTF8.data = bytes := by
  unfold String.fromUTF8? at h
  split at h
  · cases h
    rfl
  · cases h

theorem fromUTF8?_data (s : String) : String.fromUTF8? ⟨s.toUTF8.data⟩ = some s := by
  have hvalid : (⟨s.toUTF8.data⟩ : ByteArray).IsValidUTF8 := s.isValidUTF8
  rw [String.fromUTF8?, dif_pos hvalid]
  rfl

/-- Where the bytes are those of a text, the first `n` of them spell its longest front. -/
theorem longestFront_longestText {text : String} {bytes : Array UInt8} {n : Nat}
    (hn : n ≤ text.utf8ByteSize)
    (hbytes : ∀ k ≤ n, bytes.extract 0 k = text.toUTF8.data.extract 0 k) :
    LongestFront text n (Capture.longestText bytes n) := by
  induction n with
  | zero =>
      exact ⟨⟨text, String.empty_append.symm⟩, Nat.le_refl 0, fun _ _ _ h => h⟩
  | succ n ih =>
      rw [Capture.longestText]
      split
      next s hs =>
        have hdata := data_of_fromUTF8? hs
        rw [hbytes (n + 1) (Nat.le_refl _)] at hdata
        obtain ⟨hsize, hrest⟩ := eq_append_of_extract_data hn hdata
        exact ⟨hrest, Nat.le_of_eq hsize, fun _ _ _ h => hsize ▸ h⟩
      next hs =>
        have hlonger := ih (by omega) fun k hk => hbytes k (by omega)
        refine ⟨hlonger.begins, by have := hlonger.fits; omega, ?_⟩
        intro front rest htext hfits
        -- A front of `n + 1` bytes would have been found.
        have hne : front.utf8ByteSize ≠ n + 1 := by
          intro heq
          rw [hbytes (n + 1) (Nat.le_refl _), htext, ← heq, extract_data_of_append,
            fromUTF8?_data] at hs
          cases hs
        exact hlonger.longest front rest htext (by omega)

/-! ## Writing -/

/-- The line that a record adds to the capture buffer. -/
def Record.capturedLine (r : Record) : String :=
  r.target ++ "|" ++ r.message ++ "\n"

theorem join_linePieces (r : Record) :
    String.join (Capture.linePieces r) = r.capturedLine := by
  simp [Capture.linePieces, Record.capturedLine, Record.message, String.join_append,
    String.append_assoc]

namespace Capture

/-- The buffer has taken in `text`, as far as it fits. -/
structure Holds (c : Capture) (text : String) : Prop where
  bytes : c.bytes = text.toUTF8.data.extract 0 captureSize
  overflow : c.overflow = decide (captureSize < text.utf8ByteSize)

/-- What the buffer answers after `text` was logged. -/
structure Captures (c : Capture) (text : String) : Prop where
  bytes : c.bytes = text.toUTF8.data.extract 0 (min text.utf8ByteSize captureSize)
  overflow : c.overflow = true ↔ captureSize < text.utf8ByteSize
  text : LongestFront text captureSize c.text

theorem holds_restart (enabled : Bool) : (restart enabled).Holds "" :=
  ⟨rfl, rfl⟩

theorem Holds.write {c : Capture} {text : String} (h : c.Holds text) (piece : String) :
    (c.write piece).Holds (text ++ piece) := by
  have hsize : c.bytes.size = min captureSize text.utf8ByteSize := by
    rw [h.bytes, Array.size_extract, Nat.sub_zero, size_data_toUTF8]
  constructor
  case bytes =>
    -- The room that is left does not depend on how the text before was cut.
    have hroom : captureSize - c.bytes.size = captureSize - text.toUTF8.data.size := by
      rw [hsize, size_data_toUTF8]
      omega
    simp only [Capture.write, hroom, data_toUTF8_append, Array.extract_append, Nat.zero_sub]
    rw [h.bytes]
  case overflow =>
    simp only [Capture.write, h.overflow, size_data_toUTF8, hsize, String.utf8ByteSize_append,
      ← Bool.decide_or]
    apply decide_eq_decide.mpr
    omega

theorem Holds.foldl_write {c : Capture} {text : String} (h : c.Holds text)
    (pieces : List String) :
    (pieces.foldl Capture.write c).Holds (text ++ String.join pieces) := by
  induction pieces generalizing c text with
  | nil => simpa using h
  | cons piece rest ih =>
      rw [List.foldl_cons, String.join_cons, ← String.append_assoc]
      exact ih (h.write piece)

theorem enabled_foldl_write (c : Capture) (pieces : List String) :
    (pieces.foldl write c).enabled = c.enabled := by
  induction pieces generalizing c with
  | nil => rfl
  | cons piece rest ih => rw [List.foldl_cons, ih, enabled_write]

/-- The buffer was switched on or off, and `text` was logged since. -/
structure Follows (c : Capture) (on : Bool) (text : String) : Prop where
  enabled : c.enabled = on
  holds : c.Holds (if on then text else "")

theorem follows_restart (on : Bool) : (restart on).Follows on "" := by
  refine ⟨rfl, ?_⟩
  rw [ite_self]
  exact holds_restart on

theorem Follows.record {c : Capture} {on : Bool} {text : String} (h : c.Follows on text)
    (r : Record) : (c.record r).Follows on (text ++ r.capturedLine) := by
  cases on with
  | false =>
      rw [Capture.record, if_neg (by rw [h.enabled]; exact Bool.false_ne_true)]
      exact ⟨h.enabled, h.holds⟩
  | true =>
      rw [Capture.record, if_pos h.enabled, ← join_linePieces]
      exact ⟨(enabled_foldl_write c _).trans h.enabled, h.holds.foldl_write _⟩

/-- The cuts inside the buffer add up to one cut at its end. -/
theorem Holds.captures {c : Capture} {text : String} (h : c.Holds text) : c.Captures text := by
  have hbytes : c.bytes = text.toUTF8.data.extract 0 (min text.utf8ByteSize captureSize) := by
    rw [h.bytes, Nat.min_def]
    split
    next hle =>
      rw [← size_data_toUTF8] at hle ⊢
      rw [Array.extract_eq_self_of_le hle, Array.extract_size]
    next => rfl
  have hsize : c.bytes.size = min text.utf8ByteSize captureSize := by
    rw [hbytes, Array.size_extract, size_data_toUTF8]
    omega
  have hfront : LongestFront text c.bytes.size c.text := by
    apply longestFront_longestText
    · omega
    · intro k hk
      rw [h.bytes, Array.extract_extract, Nat.zero_add, Nat.zero_add, Nat.min_eq_left (by omega)]
  refine ⟨hbytes, by rw [h.overflow, decide_eq_true_iff], hfront.begins, ?_, ?_⟩
  · have := hfront.fits
    omega
  · intro front rest htext hfits
    apply hfront.longest front rest htext
    have : text.utf8ByteSize = front.utf8ByteSize + rest.utf8ByteSize := by
      rw [htext, String.utf8ByteSize_append]
    omega

end Capture

/-! ## Requests -/

inductive LogRequest where
  | install (console : Console) (level : Option Level)
  | setLevel (level : Option Level)
  | setCapture (enabled : Bool)
  | emit (r : Record)
  /-- Reads the captured text, while other records arrive. -/
  | read (meanwhile : List Record)
  deriving DecidableEq, Repr

def LogRequest.isSwitch : LogRequest → Bool
  | .setCapture _ => true
  | _ => false

namespace Logger

def perform (l : Logger) : LogRequest → Logger
  | .install console level => (l.install console level).2
  | .setLevel level => { l with maxLevel := level }
  | .setCapture enabled => l.setCapture enabled
  | .emit r => l.emit r
  | .read meanwhile => l.emitWhileReading meanwhile

def run (l : Logger) (requests : List LogRequest) : Logger :=
  requests.foldl perform l

/-- The line of a request, when it is a record that an installed logger lets pass. -/
def lineOf (l : Logger) : LogRequest → String
  | .emit r => if l.enabled r.level then r.capturedLine else ""
  | .install _ _ | .setLevel _ | .setCapture _ | .read _ => ""

/-- The lines of the records that pass the level filter, one after another. -/
def transcript (l : Logger) : List LogRequest → String
  | [] => ""
  | request :: rest => l.lineOf request ++ (l.perform request).transcript rest

theorem emit_of_not_enabled {l : Logger} {r : Record} (h : ¬ l.enabled r.level) :
    l.emit r = l := by
  unfold emit
  split
  · rfl
  next console hconsole =>
    have hpasses : ¬ r.level.passes l.maxLevel := by simpa [enabled, hconsole] using h
    rw [if_neg hpasses]

theorem emit_of_enabled {l : Logger} (hreading : l.reading = false) {r : Record}
    (h : l.enabled r.level) :
    ∃ output, l.emit r = { l with output := output, capture := l.capture.record r } := by
  obtain ⟨hinstalled, hpasses⟩ := Bool.and_eq_true_iff.mp h
  obtain ⟨console, hconsole⟩ := Option.isSome_iff_exists.mp hinstalled
  refine ⟨l.output ++ shownText console r, ?_⟩
  simp only [emit, hconsole, if_pos hpasses, hreading]
  rfl

/-- A record that arrives while the text is being read changes nothing but the output. -/
theorem foldl_emit_of_reading {l : Logger} (h : l.reading = true) (records : List Record) :
    ∃ output, records.foldl emit l = { l with output := output } := by
  induction records generalizing l with
  | nil => exact ⟨l.output, rfl⟩
  | cons r rest ih =>
      have hemit : ∃ output, l.emit r = { l with output := output } := by
        unfold emit
        split
        · exact ⟨l.output, rfl⟩
        next console _ =>
          rw [if_pos h]
          split
          · exact ⟨l.output ++ shownText console r, rfl⟩
          · exact ⟨l.output, rfl⟩
      obtain ⟨output, hemit⟩ := hemit
      obtain ⟨output', hrest⟩ := ih (l := l.emit r) (by rw [hemit]; exact h)
      exact ⟨output', by rw [List.foldl_cons, hrest, hemit]⟩

theorem emitWhileReading_eq {l : Logger} (hreading : l.reading = false)
    (records : List Record) :
    ∃ output, l.emitWhileReading records = { l with output := output } := by
  obtain ⟨output, houtput⟩ :=
    foldl_emit_of_reading (l := { l with reading := true }) rfl records
  exact ⟨output, by rw [emitWhileReading, houtput, hreading]⟩

/-- The text is read only within a request. -/
theorem reading_perform {l : Logger} (hreading : l.reading = false) (request : LogRequest) :
    (l.perform request).reading = false := by
  cases request with
  | install console level =>
      rw [perform, install]
      split <;> exact hreading
  | setLevel level => exact hreading
  | setCapture enabled => exact hreading
  | emit r =>
      rw [perform]
      by_cases hpass : l.enabled r.level
      · obtain ⟨output, hemit⟩ := emit_of_enabled hreading hpass
        rw [hemit]
        exact hreading
      · rwa [emit_of_not_enabled hpass]
  | read meanwhile => rfl

theorem reading_run {l : Logger} (hreading : l.reading = false) (requests : List LogRequest) :
    (l.run requests).reading = false := by
  induction requests generalizing l with
  | nil => exact hreading
  | cons request rest ih => exact ih (reading_perform hreading request)

theorem run_append (l : Logger) (before after : List LogRequest) :
    l.run (before ++ after) = (l.run before).run after :=
  List.foldl_append

/-! ## A stretch without a switch -/

theorem follows_perform {l : Logger} (hreading : l.reading = false) {request : LogRequest}
    (hkeep : request.isSwitch = false) {on : Bool} {text : String}
    (h : l.capture.Follows on text) :
    (l.perform request).capture.Follows on (text ++ l.lineOf request) := by
  cases request with
  | install console level =>
      have hcapture : (l.install console level).2.capture = l.capture := by
        unfold install
        split <;> rfl
      rw [perform, lineOf, String.append_empty, hcapture]
      exact h
  | setLevel level =>
      rw [lineOf, String.append_empty]
      exact h
  | setCapture enabled => cases hkeep
  | emit r =>
      rw [perform, lineOf]
      split
      next hpass =>
        obtain ⟨output, hemit⟩ := emit_of_enabled hreading hpass
        rw [hemit]
        exact h.record r
      next hpass =>
        rw [emit_of_not_enabled hpass, String.append_empty]
        exact h
  | read meanwhile =>
      obtain ⟨output, hread⟩ := emitWhileReading_eq hreading meanwhile
      rw [perform, hread, lineOf, String.append_empty]
      exact h

theorem follows_run {l : Logger} (hreading : l.reading = false) {requests : List LogRequest}
    (hkeep : ∀ request ∈ requests, request.isSwitch = false) {on : Bool} {text : String}
    (h : l.capture.Follows on text) :
    (l.run requests).capture.Follows on (text ++ l.transcript requests) := by
  induction requests generalizing l text with
  | nil =>
      rw [transcript, String.append_empty]
      exact h
  | cons request rest ih =>
      obtain ⟨hrequest, hrest⟩ := List.forall_mem_cons.mp hkeep
      rw [transcript, ← String.append_assoc]
      exact ih (reading_perform hreading request) hrest (follows_perform hreading hrequest h)

/-- After any requests, the buffer holds the front of the lines that passed the level filter
since capturing was last switched on, and nothing when it is off or was never on. -/
theorem run_captured (before : List LogRequest) (on : Bool) {later : List LogRequest}
    (hkeep : ∀ request ∈ later, request.isSwitch = false) :
    (run {} (before ++ .setCapture on :: later)).capture.Captures
        (if on then (run {} (before ++ [.setCapture on])).transcript later else "") ∧
      (run {} later).capture.Captures "" := by
  constructor
  · have hreading := reading_run (l := {}) rfl (before ++ [.setCapture on])
    have hstart : (run {} (before ++ [.setCapture on])).capture.Follows on "" := by
      rw [run_append]
      exact Capture.follows_restart on
    have hend := follows_run hreading hkeep hstart
    rw [← run_append, List.append_assoc, String.empty_append] at hend
    exact hend.holds.captures
  · have hend := follows_run (l := {}) rfl hkeep (Capture.follows_restart false)
    exact hend.holds.captures

def accented (n : Nat) : Record := ⟨.info, "ab", List.replicate n "é"⟩

theorem utf8ByteSize_accented (n : Nat) : (accented n).capturedLine.utf8ByteSize = 2 * n + 4 := by
  have hpieces : (String.join (List.replicate n "é")).utf8ByteSize = 2 * n := by
    induction n with
    | zero => rfl
    | succ n ih =>
        have hpiece : "é".utf8ByteSize = 2 := by decide
        rw [List.replicate_succ, String.join_cons, String.utf8ByteSize_append, ih, hpiece]
        omega
  have hbegin : ("ab" ++ "|").utf8ByteSize = 3 := by decide
  have hend : "\n".utf8ByteSize = 1 := by decide
  rw [accented, Record.capturedLine, Record.message, String.utf8ByteSize_append,
    String.utf8ByteSize_append, hbegin, hpieces, hend]
  omega

def accentedStart : List LogRequest := [.install .shown (some .info)]

/-- The first line has 4102 bytes, and the buffer ends inside one of its characters. -/
def accentedSession : List LogRequest :=
  [.emit (accented 2049), .emit (.of .trace "ab" "filtered"), .read [.of .info "cd" "meanwhile"]]

theorem run_captured_accented :
    (∀ request ∈ accentedSession, request.isSwitch = false) ∧
      (run {} (accentedStart ++ .setCapture true :: accentedSession)).capture.Captures
        ((run {} (accentedStart ++ [.setCapture true])).transcript accentedSession) ∧
      (run {} (accentedStart ++ [.setCapture true])).transcript accentedSession =
        (accented 2049).capturedLine ∧
      captureSize < (accented 2049).capturedLine.utf8ByteSize :=
  ⟨by decide, (run_captured accentedStart true (by decide)).1, String.append_empty,
    by rw [utf8ByteSize_accented]; decide⟩

end Logger

end Kernel16.Log
