import Kernel16.Proofs.Log.Truncation
import Mathlib.Data.List.Infix

/-!
# Captured lines decode back to the records

A record is captured as a line, its target in front of a bar and its message behind.  Targets
hold no bar, and neither part holds the end of a line.  A message may well hold bars: the
first bar of a line is the one behind the target.  So the lines that are read back are those
of the records, in order, and each belongs to the target of its record.

If the lines are too long for the buffer, one record is cut.  All that is left of it is a
front of its line, and it is listed only if that front goes past the bar.
-/

namespace Kernel16.Log

/-! ## Lines -/

theorem splitAt_of_not_mem {separator : Char} {line : List Char} (h : separator ∉ line) :
    splitAt separator line = [line] := by
  induction line with
  | nil => rfl
  | cons c rest ih =>
      obtain ⟨hne, hrest⟩ := List.ne_and_not_mem_of_not_mem_cons h
      rw [splitAt, if_neg hne.symm, ih hrest]

theorem splitAt_append {separator : Char} {line : List Char} (h : separator ∉ line)
    (rest : List Char) :
    splitAt separator (line ++ separator :: rest) = line :: splitAt separator rest := by
  induction line with
  | nil => rw [List.nil_append, splitAt, if_pos rfl]
  | cons c line ih =>
      obtain ⟨hne, hline⟩ := List.ne_and_not_mem_of_not_mem_cons h
      rw [List.cons_append, splitAt, if_neg hne.symm, ih hline]

theorem dropWhile_of_not_mem {bar : Char} {line : List Char} (h : bar ∉ line) (rest : List Char) :
    (line ++ rest).dropWhile (· ≠ bar) = rest.dropWhile (· ≠ bar) ∧
      (line ++ rest).takeWhile (· ≠ bar) = line ++ rest.takeWhile (· ≠ bar) := by
  have hall : ∀ c ∈ line, decide (c ≠ bar) = true := by
    intro c hc
    exact decide_eq_true fun heq => h (heq ▸ hc)
  exact ⟨List.dropWhile_append_of_pos hall, List.takeWhile_append_of_pos hall⟩

/-- The first bar ends the target, whatever the message is. -/
theorem messageOf?_of_bar {front : List Char} (h : '|' ∉ front) (target message : List Char) :
    messageOf? target (front ++ '|' :: message) =
      if front = target then some message else none := by
  obtain ⟨hdrop, htake⟩ := dropWhile_of_not_mem h ('|' :: message)
  rw [messageOf?, hdrop, htake]
  simp

theorem messageOf?_of_no_bar {line : List Char} (h : '|' ∉ line) (target : List Char) :
    messageOf? target line = none := by
  have hdrop := (dropWhile_of_not_mem h []).1
  rw [List.append_nil] at hdrop
  rw [messageOf?, hdrop]
  rfl

theorem occursIn_iff {needle text : List Char} : occursIn needle text = true ↔ needle <:+: text := by
  induction text with
  | nil => simp [occursIn]
  | cons c rest ih => rw [occursIn, Bool.or_eq_true, ih, List.infix_cons_iff, List.isPrefixOf_iff_prefix]

/-! ## Records and their lines -/

/-- The marks of a line are not in the record, but for bars in its message. -/
structure Record.Plain (r : Record) : Prop where
  target_bar : '|' ∉ r.target.toList
  target_newline : '\n' ∉ r.target.toList
  message_newline : '\n' ∉ r.message.toList

instance (r : Record) : Decidable r.Plain :=
  decidable_of_iff
    ('|' ∉ r.target.toList ∧ '\n' ∉ r.target.toList ∧ '\n' ∉ r.message.toList)
    ⟨fun ⟨hbar, htarget, hmessage⟩ => ⟨hbar, htarget, hmessage⟩,
      fun h => ⟨h.target_bar, h.target_newline, h.message_newline⟩⟩

def encoded (records : List Record) : String := String.join (records.map Record.capturedLine)

/-- The messages of the records with a target, in order. -/
def messagesFor (records : List Record) (target : String) : List String :=
  (records.filter (·.target = target)).map Record.message

theorem toList_capturedLine (r : Record) :
    r.capturedLine.toList = (r.target.toList ++ '|' :: r.message.toList) ++ ['\n'] := by
  simp [Record.capturedLine, String.toList_append]

theorem messages_cons_line {line : String} (h : '\n' ∉ line.toList) (rest target : String) :
    messages (line ++ "\n" ++ rest) target =
      ((messageOf? target.toList line.toList).map String.ofList).toList ++
        messages rest target := by
  have htext : (line ++ "\n" ++ rest).toList = line.toList ++ '\n' :: rest.toList := by
    simp [String.toList_append]
  rw [messages, messages, htext, splitAt_append h, List.filterMap_cons]
  cases messageOf? target.toList line.toList <;> rfl

theorem messages_line {line : String} (h : '\n' ∉ line.toList) (target : String) :
    messages line target = ((messageOf? target.toList line.toList).map String.ofList).toList := by
  rw [messages, splitAt_of_not_mem h, List.filterMap_cons]
  cases messageOf? target.toList line.toList <;> rfl

theorem Record.Plain.messageOf? {r : Record} (h : r.Plain) (target message : String) :
    (messageOf? target.toList (r.target ++ "|" ++ message).toList).map String.ofList =
      if r.target = target then some message else none := by
  have htext : (r.target ++ "|" ++ message).toList = r.target.toList ++ '|' :: message.toList := by
    simp [String.toList_append]
  rw [htext, messageOf?_of_bar h.target_bar]
  simp only [String.toList_inj]
  split
  · rw [Option.map_some, String.ofList_toList]
  · rfl

theorem newline_not_mem_append {s t : String} (hs : '\n' ∉ s.toList) (ht : '\n' ∉ t.toList) :
    '\n' ∉ (s ++ t).toList := by
  rw [String.toList_append, List.mem_append]
  exact not_or.mpr ⟨hs, ht⟩

theorem Record.Plain.newline_not_mem {r : Record} (h : r.Plain) {message : String}
    (hmessage : '\n' ∉ message.toList) : '\n' ∉ (r.target ++ "|" ++ message).toList :=
  newline_not_mem_append (newline_not_mem_append h.target_newline (by decide)) hmessage

theorem messages_encoded {records : List Record} (h : ∀ r ∈ records, r.Plain)
    (rest target : String) :
    messages (encoded records ++ rest) target =
      messagesFor records target ++ messages rest target := by
  induction records with
  | nil => rw [encoded, List.map_nil, String.join_nil, String.empty_append]; rfl
  | cons r records ih =>
      obtain ⟨hr, hrecords⟩ := List.forall_mem_cons.mp h
      have hline := hr.newline_not_mem hr.message_newline
      rw [encoded, List.map_cons, String.join_cons, Record.capturedLine, String.append_assoc,
        messages_cons_line hline, hr.messageOf?, messagesFor, List.filter_cons]
      rw [← encoded, ih hrecords]
      simp only [decide_eq_true_eq]
      split <;> rfl

/-! ## The record that is cut -/

theorem LongestFront.eq_of_fits {text s : String} {bound : Nat} (h : LongestFront text bound s)
    (hfits : text.utf8ByteSize ≤ bound) : s = text := by
  obtain ⟨rest, hrest⟩ := h.begins
  have hlong := h.longest text "" (String.append_empty).symm hfits
  have hsize : text.utf8ByteSize = s.utf8ByteSize + rest.utf8ByteSize := by
    rw [hrest, String.utf8ByteSize_append]
  have hempty : rest = "" := String.utf8ByteSize_eq_zero_iff.mp (by omega)
  rw [hrest, hempty, String.append_empty]

/-- Of two fronts of a text the shorter one is a front of the longer one. -/
theorem exists_append_of_size_le {s t rest rest' : String} (h : s ++ rest = t ++ rest')
    (hsize : s.utf8ByteSize ≤ t.utf8ByteSize) :
    ∃ middle, t = s ++ middle ∧ rest = middle ++ rest' := by
  have hfront : ∃ middle, t = s ++ middle := by
    have hlists := congrArg String.toList h
    rw [String.toList_append, String.toList_append, List.append_eq_append_iff] at hlists
    rcases hlists with ⟨middle, ht, _⟩ | ⟨middle, hs, _⟩
    · refine ⟨String.ofList middle, String.toList_inj.mp ?_⟩
      rw [ht, String.toList_append, String.toList_ofList]
    · have hs : s = t ++ String.ofList middle := by
        rw [← String.toList_inj, hs, String.toList_append, String.toList_ofList]
      have hempty : String.ofList middle = "" := by
        rw [hs, String.utf8ByteSize_append] at hsize
        exact String.utf8ByteSize_eq_zero_iff.mp (by omega)
      exact ⟨"", by rw [hs, hempty, String.append_empty, String.append_empty]⟩
  obtain ⟨middle, rfl⟩ := hfront
  rw [String.append_assoc] at h
  exact ⟨middle, rfl, (String.append_right_inj s).mp h⟩

/-- A front that fits is taken as a whole, and the rest of the bound is for what follows. -/
theorem LongestFront.of_append {a b s : String} {bound : Nat} (h : LongestFront (a ++ b) bound s)
    (hfits : a.utf8ByteSize ≤ bound) :
    ∃ s', s = a ++ s' ∧ LongestFront b (bound - a.utf8ByteSize) s' := by
  obtain ⟨rest, hrest⟩ := h.begins
  obtain ⟨s', rfl, hb⟩ := exists_append_of_size_le hrest (h.longest a b rfl hfits)
  have hsize := h.fits
  rw [String.utf8ByteSize_append] at hsize
  refine ⟨s', rfl, ⟨rest, hb⟩, by omega, ?_⟩
  intro front later hfront hbound
  have hlong := h.longest (a ++ front) later (by rw [hfront, String.append_assoc])
    (by rw [String.utf8ByteSize_append]; omega)
  rw [String.utf8ByteSize_append, String.utf8ByteSize_append] at hlong
  omega

/-- What does not fit with its last part is cut as if that part were not there. -/
theorem LongestFront.of_append_of_le {a b s : String} {bound : Nat}
    (h : LongestFront (a ++ b) bound s) (hlong : s.utf8ByteSize ≤ a.utf8ByteSize) :
    LongestFront a bound s := by
  obtain ⟨rest, hrest⟩ := h.begins
  obtain ⟨middle, ha, _⟩ := exists_append_of_size_le hrest.symm hlong
  refine ⟨⟨middle, ha⟩, h.fits, ?_⟩
  intro front later hfront hbound
  exact h.longest front (later ++ b) (by rw [hfront, String.append_assoc]) hbound

theorem not_mem_of_append {c : Char} {s t : String} (h : c ∉ (s ++ t).toList) : c ∉ s.toList := by
  rw [String.toList_append, List.mem_append] at h
  exact fun hc => h (Or.inl hc)

theorem longestFront_zero (text : String) : LongestFront text 0 "" :=
  ⟨⟨text, String.empty_append.symm⟩, Nat.le_refl 0, fun _ _ _ hbound => hbound⟩

/-- A line that is cut behind its bar still has its target, and a front of its message. -/
theorem Record.Plain.messages_of_message_cut {r : Record} (h : r.Plain) {bound : Nat}
    {front : String} (hfront : LongestFront r.message bound front) (target : String) :
    messages (r.target ++ "|" ++ front) target = if r.target = target then [front] else [] := by
  obtain ⟨rest, hrest⟩ := hfront.begins
  have hnewline : '\n' ∉ front.toList := not_mem_of_append (hrest ▸ h.message_newline)
  rw [messages_line (h.newline_not_mem hnewline), h.messageOf?]
  split <;> rfl

/-- A line that is cut before its bar belongs to no target. -/
theorem Record.Plain.messages_of_target_cut {r : Record} (h : r.Plain) {bound : Nat} {s : String}
    (hs : LongestFront r.target bound s) (target : String) : messages s target = [] := by
  obtain ⟨rest, hrest⟩ := hs.begins
  have hnewline : '\n' ∉ s.toList := not_mem_of_append (hrest ▸ h.target_newline)
  have hbar : '|' ∉ s.toList := not_mem_of_append (hrest ▸ h.target_bar)
  rw [messages_line hnewline, messageOf?_of_no_bar hbar]
  rfl

/-- What is read from a record that was cut: a front of its message, if the bar is left. -/
theorem Record.Plain.messages_cut {r : Record} (h : r.Plain) {bound : Nat} {s : String}
    (hs : LongestFront r.capturedLine bound s) (hcut : bound < r.capturedLine.utf8ByteSize) :
    ∃ front, LongestFront r.message (bound - (r.target ++ "|").utf8ByteSize) front ∧
      ∀ target, messages s target =
        if r.target = target ∧ (r.target ++ "|").utf8ByteSize ≤ bound then [front] else [] := by
  have hline : r.capturedLine = r.target ++ "|" ++ (r.message ++ "\n") :=
    String.append_assoc
  rw [hline] at hs hcut
  have hend : (r.message ++ "\n").utf8ByteSize = r.message.utf8ByteSize + 1 := by
    rw [String.utf8ByteSize_append]
    rfl
  rw [String.utf8ByteSize_append, hend] at hcut
  by_cases hbar : (r.target ++ "|").utf8ByteSize ≤ bound
  case pos =>
    obtain ⟨front, rfl, hfront⟩ := hs.of_append hbar
    have hfits := hfront.fits
    have hmessage := hfront.of_append_of_le (by omega)
    refine ⟨front, hmessage, fun target => ?_⟩
    rw [h.messages_of_message_cut hmessage]
    simp only [hbar, and_true]
  case neg =>
    have hfits := hs.fits
    have hbarSize : (r.target ++ "|").utf8ByteSize = r.target.utf8ByteSize + 1 := by
      rw [String.utf8ByteSize_append]
      rfl
    rw [String.append_assoc] at hs
    have htarget := hs.of_append_of_le (by omega)
    rw [Nat.sub_eq_zero_of_le (by omega)]
    refine ⟨"", longestFront_zero r.message, fun target => ?_⟩
    rw [h.messages_of_target_cut htarget, if_neg fun hboth => hbar hboth.2]

theorem encoded_append (records later : List Record) :
    encoded (records ++ later) = encoded records ++ encoded later := by
  rw [encoded, List.map_append, String.join_append, encoded, encoded]

theorem encoded_singleton (r : Record) : encoded [r] = r.capturedLine := by
  simp [encoded]

/-- The records `whole` fit into `bound` bytes, and the record behind them does not fit any
more. -/
structure CutAt (records : List Record) (bound : Nat) (whole : List Record) (r : Record) :
    Prop where
  begins : ∃ rest, records = whole ++ r :: rest
  fits : (encoded whole).utf8ByteSize ≤ bound
  cut : bound < (encoded (whole ++ [r])).utf8ByteSize

theorem exists_cut {records : List Record} {bound : Nat}
    (h : bound < (encoded records).utf8ByteSize) : ∃ whole r, CutAt records bound whole r := by
  induction records using List.reverseRecOn with
  | nil => exact absurd h (Nat.not_lt_zero _)
  | append_singleton records r ih =>
      by_cases hbefore : bound < (encoded records).utf8ByteSize
      · obtain ⟨whole, cut, ⟨rest, rfl⟩, hfits, hcut⟩ := ih hbefore
        exact ⟨whole, cut, ⟨rest ++ [r], by simp⟩, hfits, hcut⟩
      · exact ⟨records, r, ⟨[], rfl⟩, Nat.le_of_not_lt hbefore, h⟩

/-- The bar of the record is among the first `bound` bytes of the lines. -/
def BarFits (whole : List Record) (r : Record) (bound : Nat) : Prop :=
  (encoded whole ++ (r.target ++ "|")).utf8ByteSize ≤ bound

instance (whole : List Record) (r : Record) (bound : Nat) : Decidable (BarFits whole r bound) :=
  inferInstanceAs (Decidable (_ ≤ _))

theorem CutAt.messages_eq {records whole : List Record} {bound : Nat} {r : Record}
    (h : CutAt records bound whole r) (hplain : ∀ r ∈ records, r.Plain) {s : String}
    (hs : LongestFront (encoded records) bound s) :
    ∃ front,
      LongestFront r.message (bound - (encoded whole ++ (r.target ++ "|")).utf8ByteSize) front ∧
        ∀ target, messages s target = messagesFor whole target ++
          if r.target = target ∧ BarFits whole r bound then [front] else [] := by
  obtain ⟨⟨rest, rfl⟩, hfits, hcut⟩ := h
  rw [← List.singleton_append, ← List.append_assoc, encoded_append, encoded_append,
    encoded_singleton, String.append_assoc] at hs
  rw [encoded_append, encoded_singleton, String.utf8ByteSize_append] at hcut
  obtain ⟨part, rfl, hpart⟩ := hs.of_append hfits
  have hpartFits := hpart.fits
  have hline := hpart.of_append_of_le (by omega)
  obtain ⟨front, hfront, hmessages⟩ :=
    (hplain r (by simp)).messages_cut hline (by omega)
  have hwhole : ∀ r ∈ whole, r.Plain := fun r hr => hplain r (List.mem_append_left _ hr)
  rw [Nat.sub_sub, ← String.utf8ByteSize_append] at hfront
  refine ⟨front, hfront, fun target => ?_⟩
  have hbar : (r.target ++ "|").utf8ByteSize ≤ bound - (encoded whole).utf8ByteSize ↔
      BarFits whole r bound := by
    have hsize : (encoded whole ++ (r.target ++ "|")).utf8ByteSize =
        (encoded whole).utf8ByteSize + (r.target ++ "|").utf8ByteSize :=
      String.utf8ByteSize_append
    rw [BarFits, hsize]
    omega
  rw [messages_encoded hwhole, hmessages]
  simp only [hbar]

/-! ## Listings -/

/-- The listing of a target with its messages, and with the mark of a loss. -/
def listed (target : String) (found : List String) (lost : Bool) : List String :=
  ["\n--- ", target, " debug ---\n"] ++ found.flatMap (fun message => [message, "\n"]) ++
    (if lost then ["[... log output truncated ...]\n"] else []) ++
    ["--- end ", target, " debug ---\n"]

theorem LongestFront.ne_empty {text s : String} {bound : Nat} (h : LongestFront text bound s)
    (hne : text ≠ "") (hbound : 4 ≤ bound) : s ≠ "" := by
  obtain ⟨c, rest, htext⟩ := List.exists_cons_of_ne_nil fun hnil =>
    hne (String.toList_inj.mp (hnil.trans rfl))
  have hfirst : text = String.singleton c ++ String.ofList rest := by
    rw [← String.toList_inj, htext]
    simp [String.toList_append]
  have hsize : (String.singleton c).utf8ByteSize = c.utf8Size := by simp
  have hlong := h.longest _ _ hfirst (by have := c.utf8Size_le_four; omega)
  rintro rfl
  have hpos := c.utf8Size_pos
  rw [hsize] at hlong
  exact absurd hlong (Nat.not_le.mpr hpos)

namespace Capture

/-- What the buffer gives back of the records that it took in. -/
structure Decodes (c : Capture) (records : List Record) : Prop where
  none : records = [] → ∀ target, c.listing target = []
  listing : (encoded records).utf8ByteSize ≤ captureSize → records ≠ [] → ∀ target,
    c.listing target = listed target (messagesFor records target) false
  mentions : (encoded records).utf8ByteSize ≤ captureSize → ∀ target needle,
    c.mentions target needle = true ↔
      ∃ r ∈ records, r.target = target ∧ needle.toList <:+: r.message.toList
  cut : captureSize < (encoded records).utf8ByteSize → ∃ whole r front,
    CutAt records captureSize whole r ∧
      LongestFront r.message
        (captureSize - (encoded whole ++ (r.target ++ "|")).utf8ByteSize) front ∧
      ∀ target, c.listing target = listed target (messagesFor whole target ++
        if r.target = target ∧ BarFits whole r captureSize then [front] else []) true

variable {c : Capture} {records : List Record}

theorem listing_of_ne_empty (h : c.text ≠ "") (target : String) :
    c.listing target = listed target (messages c.text target) c.overflow := by
  have hempty : ¬ c.text.isEmpty = true := by simpa using h
  rw [Capture.listing, if_neg hempty, listed]

theorem Captures.text_eq {text : String} (h : c.Captures text)
    (hfits : text.utf8ByteSize ≤ captureSize) : c.text = text ∧ c.overflow = false := by
  refine ⟨h.text.eq_of_fits hfits, ?_⟩
  rw [Bool.eq_false_iff, Ne, h.overflow]
  exact Nat.not_lt.mpr hfits

theorem encoded_ne_empty (h : records ≠ []) : encoded records ≠ "" := by
  obtain ⟨r, rest, rfl⟩ := List.exists_cons_of_ne_nil h
  have hline : r.capturedLine ≠ "" := by
    intro hempty
    have hlist := toList_capturedLine r
    rw [hempty] at hlist
    exact List.append_ne_nil_of_right_ne_nil _ (List.cons_ne_nil _ _) hlist.symm
  intro hempty
  rw [encoded, List.map_cons, String.join_cons] at hempty
  exact hline (String.append_eq_empty_iff.mp hempty).1

theorem messages_of_fits (hplain : ∀ r ∈ records, r.Plain) (target : String) :
    messages (encoded records) target = messagesFor records target := by
  have h := messages_encoded hplain "" target
  rw [String.append_empty] at h
  exact h.trans (List.append_nil _)

theorem Captures.decodes (h : c.Captures (encoded records)) (hplain : ∀ r ∈ records, r.Plain) :
    c.Decodes records where
  none := by
    rintro rfl target
    rw [Capture.listing, (h.text_eq (Nat.zero_le _)).1]
    rfl
  listing := by
    intro hfits hne target
    obtain ⟨htext, hoverflow⟩ := h.text_eq hfits
    rw [listing_of_ne_empty (htext ▸ encoded_ne_empty hne), hoverflow, htext,
      messages_of_fits hplain]
  mentions := by
    intro hfits target needle
    rw [Capture.mentions, (h.text_eq hfits).1, messages_of_fits hplain, List.any_eq_true]
    simp only [messagesFor, List.mem_map, List.mem_filter, decide_eq_true_eq, occursIn_iff]
    constructor
    · rintro ⟨_, ⟨r, ⟨hr, htarget⟩, rfl⟩, hneedle⟩
      exact ⟨r, hr, htarget, hneedle⟩
    · rintro ⟨r, hr, htarget, hneedle⟩
      exact ⟨r.message, ⟨r, ⟨hr, htarget⟩, rfl⟩, hneedle⟩
  cut := by
    intro hlong
    obtain ⟨whole, r, hcut⟩ := exists_cut hlong
    obtain ⟨front, hfront, hmessages⟩ := hcut.messages_eq hplain h.text
    refine ⟨whole, r, front, hcut, hfront, fun target => ?_⟩
    have hne : c.text ≠ "" := h.text.ne_empty (by rintro hempty; rw [hempty] at hlong; cases hlong)
      (by decide)
    rw [listing_of_ne_empty hne, hmessages, h.overflow.mpr hlong]

end Capture

/-! ## The records of a session -/

namespace Logger

/-- The record of a request, if an installed logger lets it pass. -/
def recordOf? (l : Logger) : LogRequest → Option Record
  | .emit r => if l.enabled r.level then some r else none
  | .install _ _ | .setLevel _ | .setCapture _ | .read _ => none

/-- The records that pass the level filter, in order. -/
def passed (l : Logger) : List LogRequest → List Record
  | [] => []
  | request :: rest => (l.recordOf? request).toList ++ (l.perform request).passed rest

theorem lineOf_eq_encoded (l : Logger) (request : LogRequest) :
    l.lineOf request = encoded (l.recordOf? request).toList := by
  cases request with
  | emit r =>
      rw [lineOf, recordOf?]
      split
      · exact (encoded_singleton r).symm
      · rfl
  | install console level => rfl
  | setLevel level => rfl
  | setCapture enabled => rfl
  | read meanwhile => rfl

theorem transcript_eq_encoded (l : Logger) (requests : List LogRequest) :
    l.transcript requests = encoded (l.passed requests) := by
  induction requests generalizing l with
  | nil => rfl
  | cons request rest ih => rw [transcript, passed, encoded_append, lineOf_eq_encoded, ih]

/-- After any requests, what was captured since capturing was last switched on is read back
record by record. -/
theorem run_decoded (before : List LogRequest) {later : List LogRequest}
    (hkeep : ∀ request ∈ later, request.isSwitch = false)
    (hplain : ∀ r ∈ (run {} (before ++ [.setCapture true])).passed later, r.Plain) :
    (run {} (before ++ .setCapture true :: later)).capture.Decodes
      ((run {} (before ++ [.setCapture true])).passed later) := by
  have hreading := reading_run (l := {}) rfl (before ++ [.setCapture true])
  have hstart : (run {} (before ++ [.setCapture true])).capture.Follows true "" := by
    rw [run_append]
    exact Capture.follows_restart true
  have hend := (follows_run hreading hkeep hstart).holds
  rw [← run_append, List.append_assoc, String.empty_append, if_pos rfl,
    transcript_eq_encoded] at hend
  exact hend.captures.decodes hplain

def barredStart : List LogRequest :=
  [.install .discarded (some .info), .setCapture true, .emit (.of .info "ab" "before")]

/-- Messages with bars and without text, and targets of which one begins the other. -/
def barredSession : List LogRequest :=
  [.emit (.of .info "ab" "x|y"), .emit (.of .debug "ab" "filtered"), .emit (.of .warn "abc" "z"),
    .read [.of .info "ab" "meanwhile"], .emit ⟨.error, "ab", []⟩, .emit (.of .info "" "|")]

def barredRecords : List Record :=
  [.of .info "ab" "x|y", .of .warn "abc" "z", ⟨.error, "ab", []⟩, .of .info "" "|"]

theorem plain_accented (n : Nat) : (accented n).Plain := by
  have hbar : '|' ∉ "ab".toList := by decide
  have hnewline : '\n' ∉ "ab".toList := by decide
  refine ⟨hbar, hnewline, ?_⟩
  rw [accented, Record.message]
  induction n with
  | zero => decide
  | succ n ih =>
      rw [List.replicate_succ, String.join_cons]
      exact newline_not_mem_append (by decide) ih

/-- One session fits into the buffer, and the other is cut inside a message. -/
theorem run_decoded_sessions :
    (run {} (barredStart ++ [.setCapture true])).passed barredSession = barredRecords ∧
      (run {} (barredStart ++ .setCapture true :: barredSession)).capture.Decodes
        ((run {} (barredStart ++ [.setCapture true])).passed barredSession) ∧
      (encoded barredRecords).utf8ByteSize ≤ captureSize ∧
      messagesFor barredRecords "ab" = ["x|y", ""] ∧
      (run {} (accentedStart ++ [.setCapture true])).passed accentedSession = [accented 2049] ∧
      (run {} (accentedStart ++ .setCapture true :: accentedSession)).capture.Decodes
        ((run {} (accentedStart ++ [.setCapture true])).passed accentedSession) ∧
      captureSize < (encoded [accented 2049]).utf8ByteSize := by
  have hbarred : (run {} (barredStart ++ [.setCapture true])).passed barredSession =
      barredRecords := by decide
  have haccented : (run {} (accentedStart ++ [.setCapture true])).passed accentedSession =
      [accented 2049] := rfl
  have hbarredPlain : ∀ r ∈ barredRecords, r.Plain := by decide
  have haccentedPlain : ∀ r ∈ [accented 2049], r.Plain :=
    List.forall_mem_singleton.mpr (plain_accented 2049)
  refine ⟨hbarred, run_decoded barredStart (by decide) (hbarred ▸ hbarredPlain), by decide,
    by decide, haccented, run_decoded accentedStart (by decide) (haccented ▸ haccentedPlain), ?_⟩
  rw [encoded_singleton, utf8ByteSize_accented]
  decide

end Logger

end Kernel16.Log
