import OpenrestyGateway.Resp
import Mathlib.Data.List.TakeWhile

/-!
Reading what a server writes: every reply comes back as it was meant, however deep it is
nested, and a reply that has not arrived in full is never taken for one.
-/
namespace OpenrestyGateway
namespace Resp

/-- An open socket on which these bytes have arrived. -/
def arrived (b : Bytes) (failure : String) : Sock := ⟨b, failure, false⟩

/-- What is left of a socket on which a read has failed: nothing unread, and closed after
a timeout. -/
structure Drained (subscribed : Bool) (failure : String) (s : Sock) : Prop where
  empty : s.incoming = []
  closed : failure = "timeout" → subscribed = false → s.closed = true

/-! ### Lines -/

theorem lf_notMem_ascii {cs : List Char} (h : ∀ c ∈ cs, c.isDigit = true) (b : UInt8)
    (hb : b.toNat < 48) : b ∉ ascii cs := by
  intro hmem
  obtain ⟨c, hc, hbyte⟩ := List.mem_map.mp hmem
  have hdigit := toNat_digit (h c hc)
  have hnat : b.toNat = c.toNat := by
    rw [← hbyte, UInt8.toNat_ofNat']
    exact Nat.mod_eq_of_lt (by omega)
  omega

def decimalLine (n : Nat) : Line where
  bytes := decimalBytes n
  noCr := lf_notMem_ascii isDigit_toDigits cr (by decide)
  noLf := lf_notMem_ascii isDigit_toDigits lf (by decide)

theorem notMem_minus {b : UInt8} {n : Nat} (hb : b.toNat < 45) : b ∉ 45 :: decimalBytes n := by
  intro h
  obtain heq | hmem := List.mem_cons.mp h
  · rw [heq] at hb
    exact absurd hb (by decide)
  · exact lf_notMem_ascii isDigit_toDigits b (by omega) hmem

def integerLine : Int → Line
  | .ofNat n => decimalLine n
  | .negSucc n => ⟨45 :: decimalBytes (n + 1), notMem_minus (by decide), notMem_minus (by decide)⟩

theorem integerLine_bytes (i : Int) : (integerLine i).bytes = integerBytes i := by
  cases i with
  | ofNat n => rfl
  | negSucc n => rfl

theorem number_integerBytes (i : Int) : number (integerBytes i) = some (i : ℚ) := by
  cases i with
  | ofNat n => exact number_decimalBytes n
  | negSucc n =>
      have hchars : chars (45 :: decimalBytes (n + 1)) = '-' :: Nat.toDigits 10 (n + 1) := by
        rw [← chars_decimalBytes]
        rfl
      have hread : readUnsigned (Nat.toDigits 10 (n + 1)) =
          some (decimal (Nat.toDigits 10 (n + 1)) : ℚ) :=
        readUnsigned_digits Nat.toDigits_ne_nil isDigit_toDigits
      rw [decimal_toDigits] at hread
      rw [integerBytes, number, hchars, tonumber, String.toList_ofList]
      change Option.map (fun q => -q) (readUnsigned (Nat.toDigits 10 (n + 1))) = _
      rw [hread]
      simp only [Option.map_some, Int.cast_negSucc]

theorem notLf_of_notMem {xs : Bytes} (h : lf ∉ xs) : ∀ x ∈ xs, Sock.notLf x = true := by
  intro x hx
  exact bne_iff_ne.mpr (fun heq => h (heq ▸ hx))

theorem notCr_of_notMem {xs : Bytes} (h : cr ∉ xs) : ∀ x ∈ xs, (!Sock.isCr x) = true := by
  intro x hx
  have hne : x ≠ cr := fun heq => h (heq ▸ hx)
  simpa [Sock.isCr] using hne

section Header
variable {c : UInt8} {line : Line} {rest p : Bytes} {failure : String}

theorem header_append (rest : Bytes) :
    header c line.bytes ++ rest = (c :: line.bytes ++ [cr]) ++ lf :: rest := by
  simp [header, crlf]

theorem lf_notMem_header (hc : c ≠ lf) : lf ∉ c :: line.bytes ++ [cr] := by
  intro h
  obtain hline | hcr := List.mem_append.mp h
  · obtain heq | hmem := List.mem_cons.mp hline
    · exact hc heq.symm
    · exact line.noLf hmem
  · exact absurd (List.mem_singleton.mp hcr) (by decide)

theorem receiveLine_header (hlf : c ≠ lf) (hcr : c ≠ cr) :
    (arrived (header c line.bytes ++ rest) failure).receiveLine =
      (.ok (c :: line.bytes), arrived rest failure) := by
  have hnotLf := notLf_of_notMem (lf_notMem_header hlf : lf ∉ c :: line.bytes ++ [cr])
  have htake : (header c line.bytes ++ rest).takeWhile Sock.notLf = c :: line.bytes ++ [cr] := by
    rw [header_append, List.takeWhile_append_of_pos hnotLf]
    exact List.append_nil _
  have hdrop : (header c line.bytes ++ rest).dropWhile Sock.notLf = lf :: rest := by
    rw [header_append, List.dropWhile_append_of_pos hnotLf]
    rfl
  have hfilter : (c :: line.bytes ++ [cr]).filter (fun c => !Sock.isCr c) = c :: line.bytes := by
    have hkept : ∀ x ∈ c :: line.bytes, (!Sock.isCr x) = true := by
      refine notCr_of_notMem (fun h => ?_)
      obtain heq | hmem := List.mem_cons.mp h
      · exact hcr heq.symm
      · exact line.noCr hmem
    rw [List.filter_append, List.filter_eq_self.mpr hkept]
    exact List.append_nil _
  simp only [Sock.receiveLine, arrived, Bool.false_eq_true, if_false, hdrop, htake, hfilter]

theorem receiveLine_short (h : lf ∉ p) :
    (arrived p failure).receiveLine = (.error failure, arrived [] failure) := by
  have hdrop : p.dropWhile Sock.notLf = [] := by
    rw [List.dropWhile_eq_nil_iff]
    exact notLf_of_notMem h
  simp only [Sock.receiveLine, arrived, Bool.false_eq_true, if_false, hdrop]

/-- What has arrived of a line and what follows it stops within the line, or after it. -/
theorem prefix_header (hc : c ≠ lf) (h : p <+: header c line.bytes ++ rest) :
    lf ∉ p ∨ ∃ q, p = header c line.bytes ++ q ∧ q <+: rest := by
  have hwhole : header c line.bytes <+: header c line.bytes ++ rest := List.prefix_append _ _
  have hsplit : header c line.bytes = (c :: line.bytes ++ [cr]) ++ [lf] := by
    have hend : header c line.bytes ++ [] = (c :: line.bytes ++ [cr]) ++ [lf] :=
      header_append []
    rwa [List.append_nil] at hend
  obtain hshort | hlong := List.prefix_or_prefix_of_prefix h hwhole
  · rw [hsplit] at hshort
    obtain hfull | hpart := List.prefix_concat_iff.mp hshort
    · refine .inr ⟨[], ?_, List.nil_prefix⟩
      rw [hfull, hsplit, List.append_nil]
    · exact .inl (fun hmem => lf_notMem_header hc (hpart.subset hmem))
  · obtain ⟨q, hq⟩ := hlong
    refine .inr ⟨q, hq.symm, ?_⟩
    rw [← hq] at h
    exact (List.prefix_append_right_inj _).mp h

end Header

/-! ### Data -/

section Data
variable {data rest p : Bytes} {failure : String}

theorem receive_append : (arrived (data ++ rest) failure).receive data.length =
    (.ok data, arrived rest failure) := by
  have hle : data.length ≤ (data ++ rest).length := by simp
  simp only [Sock.receive, arrived, Bool.false_eq_true, if_false, hle, if_true,
    List.take_left, List.drop_left]

theorem receive_short {n : Nat} (h : p.length < n) :
    (arrived p failure).receive n = (.error failure, arrived [] failure) := by
  have hle : ¬ n ≤ p.length := by omega
  simp only [Sock.receive, arrived, Bool.false_eq_true, if_false, hle]

end Data

section Reading
variable {subscribed : Bool} {failure : String}

theorem floor_natCast (n : Nat) : ⌊((n : Nat) : ℚ)⌋.toNat = n := by
  rw [Int.floor_natCast]
  rfl

theorem not_natCast_neg (n : Nat) : ¬ ((n : Nat) : ℚ) < 0 := by
  exact not_lt.mpr (Nat.cast_nonneg n)

theorem number_minusOne : number (integerBytes (-1)) = some (-1 : ℚ) := number_integerBytes (-1)

theorem readBulk_data (data rest : Bytes) :
    readBulk (decimalBytes data.length) (arrived (data ++ (crlf ++ rest)) failure) =
      .ok (.reply (.str data), arrived rest failure) := by
  have hcrlf : (arrived (crlf ++ rest) failure).receive 2 = (.ok crlf, arrived rest failure) :=
    receive_append
  simp only [readBulk, number_decimalBytes, if_neg (not_natCast_neg _), floor_natCast,
    receive_append, hcrlf]

theorem readBulk_short {data p : Bytes} (h : p <+: data ++ crlf) (hne : p ≠ data ++ crlf) :
    ∃ s, readBulk (decimalBytes data.length) (arrived p failure) =
      .ok (.failed (some failure), s) ∧ Drained subscribed failure s := by
  have hlen : p.length < (data ++ crlf).length := by
    obtain ⟨q, hq⟩ := h
    cases q with
    | nil => exact absurd ((List.append_nil p).symm.trans hq) hne
    | cons b q => rw [← hq]; simp
  have hdrained : Drained subscribed failure
      ((arrived [] failure).closeIf (failure == "timeout")) := by
    refine ⟨?_, fun ht _ => ?_⟩
    · simp only [Sock.closeIf]
      split <;> rfl
    · rw [ht]
      rfl
  by_cases hdata : p.length < data.length
  · refine ⟨_, ?_, hdrained⟩
    simp only [readBulk, number_decimalBytes, if_neg (not_natCast_neg _), floor_natCast,
      receive_short hdata, broken]
  · have hpre : data <+: p :=
      List.prefix_of_prefix_length_le (List.prefix_append _ _) h (by omega)
    obtain ⟨q, hq⟩ := hpre
    have hq2 : q.length < 2 := by
      rw [← hq] at hlen
      simp [crlf] at hlen
      omega
    refine ⟨_, ?_, hdrained⟩
    rw [← hq]
    simp only [readBulk, number_decimalBytes, if_neg (not_natCast_neg _), floor_natCast,
      receive_append, receive_short hq2, broken]

/-! ### Replies -/

theorem readNested_header {c : UInt8} (hlf : c ≠ lf) (hcr : c ≠ cr) (line : Line) (body : Bytes)
    (fuel : Nat) :
    readNested subscribed (fuel + 1) (arrived (header c line.bytes ++ body) failure) =
      readBody (readNested subscribed fuel) (arrived body failure) (c :: line.bytes) := by
  simp only [readNested, receiveLine_header hlf hcr]

theorem readNested_noLine {p : Bytes} (h : lf ∉ p) (fuel : Nat) :
    ∃ s, readNested subscribed (fuel + 1) (arrived p failure) =
      .ok (.failed (some failure), s) ∧ Drained subscribed failure s := by
  refine ⟨(arrived [] failure).closeIf (failure == "timeout" && !subscribed), ?_, ?_, ?_⟩
  · simp only [readNested, receiveLine_short h]
  · simp only [Sock.closeIf]
    split <;> rfl
  · intro ht hs
    rw [ht, hs]
    rfl

theorem length_header (c : UInt8) (line : Bytes) : (header c line).length = line.length + 3 := by
  simp [header, crlf]

mutual
theorem readNested_encode : ∀ (m : Message) (fuel : Nat) (rest : Bytes),
    (encode m ++ rest).length < fuel →
      readNested subscribed fuel (arrived (encode m ++ rest) failure) =
        .ok (.reply m.value, arrived rest failure)
  | _, 0, _, h => absurd h (Nat.not_lt_zero _)
  | .bulk data, fuel + 1, rest, _ => by
      rw [encode, List.append_assoc, List.append_assoc,
        show decimalBytes data.length = (decimalLine data.length).bytes from rfl,
        readNested_header (by decide) (by decide)]
      exact readBulk_data data rest
  | .nullBulk, fuel + 1, rest, _ => by
      rw [encode, ← integerLine_bytes, readNested_header (by decide) (by decide),
        integerLine_bytes]
      simp only [readBody, if_true, readBulk, number_minusOne]
      rfl
  | .nullArray, fuel + 1, rest, _ => by
      rw [encode, ← integerLine_bytes, readNested_header (by decide) (by decide),
        integerLine_bytes]
      simp only [readBody, readMultiBulk, number_minusOne]
      rfl
  | .status line, fuel + 1, rest, _ => by
      rw [encode, readNested_header (by decide) (by decide)]
      rfl
  | .error line, fuel + 1, rest, _ => by
      rw [encode, readNested_header (by decide) (by decide)]
      rfl
  | .integer i, fuel + 1, rest, _ => by
      rw [encode, ← integerLine_bytes, readNested_header (by decide) (by decide),
        integerLine_bytes]
      simp only [readBody, readInteger, number_integerBytes]
      rfl
  | .array xs, fuel + 1, rest, h => by
      have hlen : (encodeAll xs ++ rest).length < fuel := by
        rw [encode, List.append_assoc, List.length_append, length_header] at h
        omega
      rw [encode, List.append_assoc,
        show decimalBytes xs.length = (decimalLine xs.length).bytes from rfl,
        readNested_header (by decide) (by decide)]
      change readMultiBulk _ (decimalBytes xs.length) _ = _
      simp only [readMultiBulk, number_decimalBytes, if_neg (not_natCast_neg _), floor_natCast]
      exact readElements_encode xs fuel [] rest hlen

theorem readElements_encode : ∀ (xs : List Message) (fuel : Nat) (vals : List Reply)
    (rest : Bytes), (encodeAll xs ++ rest).length < fuel →
      readElements (readNested subscribed fuel) vals xs.length
        (arrived (encodeAll xs ++ rest) failure) =
          .ok (.reply (.arr (vals ++ valuesOf xs)), arrived rest failure)
  | [], _, vals, rest, _ => by
      rw [valuesOf, List.append_nil]
      rfl
  | x :: xs, fuel, vals, rest, h => by
      rw [encodeAll, List.append_assoc] at h ⊢
      have hlen : (encodeAll xs ++ rest).length < fuel := by
        rw [List.length_append] at h
        omega
      rw [List.length_cons, readElements, readNested_encode x fuel _ h]
      change readElements _ (vals ++ [x.value]) xs.length _ = _
      rw [readElements_encode xs fuel _ rest hlen, valuesOf, List.append_assoc]
      rfl
end

/-- What has arrived of two parts stops within the first, or after it. -/
theorem prefix_append_cases {p a b : Bytes} (h : p <+: a ++ b) :
    (p <+: a ∧ p ≠ a) ∨ ∃ q, p = a ++ q ∧ q <+: b := by
  obtain hshort | hlong := List.prefix_or_prefix_of_prefix h (List.prefix_append a b)
  · by_cases heq : p = a
    · exact .inr ⟨[], heq.trans (List.append_nil a).symm, List.nil_prefix⟩
    · exact .inl ⟨hshort, heq⟩
  · obtain ⟨q, hq⟩ := hlong
    rw [← hq] at h
    exact .inr ⟨q, hq.symm, (List.prefix_append_right_inj a).mp h⟩

/-- A reply that is a line only. -/
theorem readNested_line_short {c : UInt8} (hc : c ≠ lf) (line : Line) {p : Bytes}
    (h : p <+: header c line.bytes) (hne : p ≠ header c line.bytes) (fuel : Nat) :
    ∃ s, readNested subscribed (fuel + 1) (arrived p failure) =
      .ok (.failed (some failure), s) ∧ Drained subscribed failure s := by
  rw [← List.append_nil (header c line.bytes)] at h hne
  obtain hline | ⟨q, hp, hq⟩ := prefix_header hc h
  · exact readNested_noLine hline fuel
  · rw [List.prefix_nil.mp hq] at hp
    exact absurd hp hne

mutual
theorem readNested_short : ∀ (m : Message) (fuel : Nat) (p : Bytes), p <+: encode m →
    p ≠ encode m → p.length < fuel →
      ∃ s, readNested subscribed fuel (arrived p failure) = .ok (.failed (some failure), s) ∧
        Drained subscribed failure s
  | _, 0, _, _, _, h => absurd h (Nat.not_lt_zero _)
  | .bulk data, fuel + 1, p, h, hne, _ => by
      rw [encode, show decimalBytes data.length = (decimalLine data.length).bytes from rfl]
        at h hne
      obtain hline | ⟨q, hp, hq⟩ := prefix_header (by decide) h
      · exact readNested_noLine hline fuel
      · rw [hp] at hne ⊢
        rw [readNested_header (by decide) (by decide)]
        exact readBulk_short hq (fun heq => hne (by rw [heq]))
  | .nullBulk, fuel + 1, p, h, hne, _ => by
      rw [encode, ← integerLine_bytes] at h hne
      exact readNested_line_short (by decide) _ h hne fuel
  | .nullArray, fuel + 1, p, h, hne, _ => by
      rw [encode, ← integerLine_bytes] at h hne
      exact readNested_line_short (by decide) _ h hne fuel
  | .status line, fuel + 1, p, h, hne, _ => by
      rw [encode] at h hne
      exact readNested_line_short (by decide) _ h hne fuel
  | .error line, fuel + 1, p, h, hne, _ => by
      rw [encode] at h hne
      exact readNested_line_short (by decide) _ h hne fuel
  | .integer i, fuel + 1, p, h, hne, _ => by
      rw [encode, ← integerLine_bytes] at h hne
      exact readNested_line_short (by decide) _ h hne fuel
  | .array xs, fuel + 1, p, h, hne, hlen => by
      rw [encode, show decimalBytes xs.length = (decimalLine xs.length).bytes from rfl]
        at h hne
      obtain hline | ⟨q, hp, hq⟩ := prefix_header (by decide) h
      · exact readNested_noLine hline fuel
      · rw [hp] at hne hlen ⊢
        rw [List.length_append, length_header] at hlen
        rw [readNested_header (by decide) (by decide)]
        change ∃ s, readMultiBulk _ (decimalBytes xs.length) _ = _ ∧ _
        simp only [readMultiBulk, number_decimalBytes, if_neg (not_natCast_neg _),
          floor_natCast]
        exact readElements_short xs fuel [] q hq (fun heq => hne (by rw [heq])) (by omega)

theorem readElements_short : ∀ (xs : List Message) (fuel : Nat) (vals : List Reply) (p : Bytes),
    p <+: encodeAll xs → p ≠ encodeAll xs → p.length < fuel →
      ∃ s, readElements (readNested subscribed fuel) vals xs.length (arrived p failure) =
        .ok (.failed (some failure), s) ∧ Drained subscribed failure s
  | [], _, _, p, h, hne, _ => absurd (List.prefix_nil.mp h) hne
  | x :: xs, fuel, vals, p, h, hne, hlen => by
      rw [encodeAll] at h hne
      obtain ⟨hx, hxne⟩ | ⟨q, hp, hq⟩ := prefix_append_cases h
      · obtain ⟨s, hread, hs⟩ := readNested_short x fuel p hx hxne hlen
        refine ⟨s, ?_, hs⟩
        rw [List.length_cons, readElements, hread]
      · rw [hp] at hne hlen ⊢
        obtain ⟨s, hread, hs⟩ := readElements_short xs fuel (vals ++ [x.value]) q hq
          (fun heq => hne (by rw [heq])) (by rw [List.length_append] at hlen; omega)
        refine ⟨s, ?_, hs⟩
        rw [List.length_cons, readElements, readNested_encode x fuel q hlen]
        exact hread
end

/-- A reply comes back as the server means it, and nothing behind it is touched. -/
theorem readReply_encode (m : Message) (rest : Bytes) (subscribed : Bool) (failure : String) :
    readReply subscribed (arrived (encode m ++ rest) failure) =
      .ok (.reply m.value, arrived rest failure) :=
  readNested_encode m _ rest (Nat.lt_succ_self _)

/-! ### Pipelines -/

theorem drained_closeIf {s : Sock} (h : Drained subscribed failure s) (timeout : Bool) :
    Drained subscribed failure (s.closeIf timeout) := by
  cases timeout with
  | false => exact h
  | true => exact ⟨h.empty, fun _ _ => rfl⟩

theorem readReplies_encode (ms : List Message) (vals : List Reply) (rest : Bytes) :
    readReplies subscribed vals ms.length (arrived (encodeAll ms ++ rest) failure) =
      .ok ((some (vals ++ valuesOf ms), none), arrived rest failure) := by
  induction ms generalizing vals with
  | nil =>
      rw [valuesOf, List.append_nil]
      rfl
  | cons m ms ih =>
      rw [encodeAll, List.append_assoc, List.length_cons, readReplies,
        readReply_encode m]
      change readReplies subscribed (vals ++ [m.value]) ms.length _ = _
      rw [ih, valuesOf, List.append_assoc]
      rfl

theorem readReplies_short (ms : List Message) (vals : List Reply) {p : Bytes}
    (h : p <+: encodeAll ms) (hne : p ≠ encodeAll ms) :
    ∃ s, readReplies subscribed vals ms.length (arrived p failure) =
      .ok ((none, some failure), s) ∧ Drained subscribed failure s := by
  induction ms generalizing vals p with
  | nil => exact absurd (List.prefix_nil.mp h) hne
  | cons m ms ih =>
      rw [encodeAll] at h hne
      rw [List.length_cons, readReplies]
      obtain ⟨hm, hmne⟩ | ⟨q, hp, hq⟩ := prefix_append_cases h
      · obtain ⟨s, hread, hs⟩ := @readNested_short subscribed
          failure m _ p hm hmne (Nat.lt_succ_self _)
        refine ⟨_, ?_, drained_closeIf hs (failure == "timeout")⟩
        rw [show readReply subscribed (arrived p failure) = _ from hread]
        rfl
      · rw [hp] at hne ⊢
        obtain ⟨s, hread, hs⟩ := ih (vals ++ [m.value]) hq (fun heq => hne (by rw [heq]))
        refine ⟨s, ?_, hs⟩
        rw [readReply_encode m]
        exact hread

end Reading

/-- The results of a pipeline are complete or there are none: whatever part of the
answers has arrived when the socket fails, no command is given the answer to another. -/
theorem commitPipeline_answers (reqs : List (List Piece)) (ms : List Message)
    (hlen : ms.length = reqs.length) (p : Bytes) (h : p <+: encodeAll ms) (subscribed : Bool)
    (failure : String) :
    ∃ s, commitPipeline subscribed reqs (fun _ => .ok (arrived p failure)) =
        .ok (if p = encodeAll ms then (some (valuesOf ms), none) else (none, some failure),
          some s) ∧
      s.incoming = [] ∧
      (p ≠ encodeAll ms → failure = "timeout" → subscribed = false → s.closed = true) := by
  simp only [commitPipeline, ← hlen]
  by_cases hfull : p = encodeAll ms
  · refine ⟨arrived [] failure, ?_, rfl, fun hne => absurd hfull hne⟩
    have hread := @readReplies_encode subscribed failure ms [] []
    rw [List.append_nil] at hread
    rw [if_pos hfull, hfull, hread]
    rfl
  · obtain ⟨s, hread, hs⟩ :=
      @readReplies_short subscribed failure ms [] p h hfull
    refine ⟨s, ?_, hs.empty, fun _ => hs.closed⟩
    rw [if_neg hfull, hread]
    rfl

theorem commitPipeline_answers_two :
    ∃ s, commitPipeline false [genReq [.string [71]], genReq [.string [72]]]
        (fun _ => .ok (arrived [36, 49, 13, 10, 55, 13, 10, 58] "timeout")) =
        .ok ((none, some "timeout"), some s) ∧ s.closed = true := by
  obtain ⟨s, hcommit, -, hclosed⟩ := commitPipeline_answers
    [genReq [.string [71]], genReq [.string [72]]] [.bulk [55], .integer 3] rfl
    [36, 49, 13, 10, 55, 13, 10, 58] ⟨[51, 13, 10], by decide +kernel⟩ false "timeout"
  refine ⟨s, ?_, hclosed (by decide +kernel) rfl rfl⟩
  rw [hcommit, if_neg (by decide +kernel)]

/-! ### Requests -/

/-- A request is a reply of bulk replies. -/
def argMessage (arg : Arg) : Message := .bulk arg.text

def requestMessage (args : List Arg) : Message := .array (args.map argMessage)

theorem onWire_genArgs (args : List Arg) :
    onWire (args.flatMap genArg) = encodeAll (args.map argMessage) := by
  induction args with
  | nil => rfl
  | cons arg args ih =>
      simp only [onWire, genArg, List.flatMap_cons, List.flatMap_append, List.map_cons,
        encodeAll, argMessage, encode, header, Piece.bytes] at ih ⊢
      rw [ih]
      simp

theorem onWire_genReq (args : List Arg) : onWire (genReq args) = encode (requestMessage args) := by
  have hargs := onWire_genArgs args
  simp only [onWire, genReq, List.flatMap_append, requestMessage, encode, List.length_map]
    at hargs ⊢
  rw [hargs]
  simp [Piece.bytes, header]

theorem onWire_genReqs (reqs : List (List Arg)) :
    (reqs.map genReq).flatMap onWire = encodeAll (reqs.map requestMessage) := by
  induction reqs with
  | nil => rfl
  | cons args reqs ih =>
      rw [List.map_cons, List.flatMap_cons, ih, onWire_genReq]
      rfl

theorem encode_ne_nil (m : Message) : encode m ≠ [] := by
  cases m with
  | bulk _ | nullBulk | nullArray | status _ | error _ | integer _ | array _ =>
      simp [encode, header]

/-- Replies one after the other can be told apart. -/
theorem valuesOf_eq_of_encodeAll : ∀ {ms ms' : List Message}, encodeAll ms = encodeAll ms' →
    valuesOf ms = valuesOf ms' := by
  intro ms
  induction ms with
  | nil =>
      intro ms' h
      cases ms' with
      | nil => rfl
      | cons m' ms' =>
          rw [encodeAll, encodeAll] at h
          exact absurd (List.append_eq_nil_iff.mp h.symm).1 (encode_ne_nil m')
  | cons m ms ih =>
      intro ms' h
      cases ms' with
      | nil =>
          rw [encodeAll, encodeAll] at h
          exact absurd (List.append_eq_nil_iff.mp h).1 (encode_ne_nil m)
      | cons m' ms' =>
          rw [encodeAll, encodeAll] at h
          have hread := readReply_encode m (encodeAll ms) false "closed"
          rw [h, readReply_encode m' (encodeAll ms') false "closed"] at hread
          simp only [Except.ok.injEq, Prod.mk.injEq, Outcome.reply.injEq, arrived,
            Sock.mk.injEq, and_true] at hread
          rw [valuesOf, valuesOf, hread.1, ih hread.2.symm]

theorem valuesOf_argMessages (args : List Arg) :
    valuesOf (args.map argMessage) = args.map (fun arg => .str arg.text) := by
  induction args with
  | nil => rfl
  | cons arg args ih =>
      rw [List.map_cons, valuesOf, ih]
      rfl

theorem valuesOf_requestMessages (reqs : List (List Arg)) :
    valuesOf (reqs.map requestMessage) =
      reqs.map (fun args => .arr (args.map (fun arg => .str arg.text))) := by
  induction reqs with
  | nil => rfl
  | cons args reqs ih =>
      rw [List.map_cons, valuesOf, ih]
      simp only [requestMessage, Message.value, valuesOf_argMessages, List.map_cons]

theorem map_str_injective : Function.Injective (List.map Reply.str) :=
  List.map_injective_iff.mpr (fun _ _ h => by cases h; rfl)

/-- Whatever bytes the arguments hold, the bytes of a pipeline are those of its own
commands with their own arguments only. -/
theorem requests_injective (reqs reqs' : List (List Arg)) :
    (reqs.map genReq).flatMap onWire = (reqs'.map genReq).flatMap onWire ↔
      reqs.map (List.map Arg.text) = reqs'.map (List.map Arg.text) := by
  have hvalues : ∀ rs : List (List Arg), valuesOf (rs.map requestMessage) =
      (rs.map (List.map Arg.text)).map (fun texts => .arr (texts.map Reply.str)) := by
    intro rs
    rw [valuesOf_requestMessages, List.map_map]
    refine List.map_congr_left (fun args _ => ?_)
    rw [Function.comp_apply, List.map_map]
    rfl
  constructor
  · intro h
    rw [onWire_genReqs, onWire_genReqs] at h
    have heq := valuesOf_eq_of_encodeAll h
    rw [hvalues, hvalues] at heq
    refine List.map_injective_iff.mpr (fun texts texts' htexts => ?_) heq
    exact map_str_injective (Reply.arr.inj htexts)
  · intro h
    rw [onWire_genReqs, onWire_genReqs]
    have hmessage : ∀ rs : List (List Arg), rs.map requestMessage =
        (rs.map (List.map Arg.text)).map (fun texts => .array (texts.map Message.bulk)) := by
      intro rs
      rw [List.map_map]
      refine List.map_congr_left (fun args _ => ?_)
      rw [Function.comp_apply, List.map_map]
      rfl
    rw [hmessage, hmessage, h]

end Resp
end OpenrestyGateway
