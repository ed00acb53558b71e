import OpenrestyGateway.DecimalText

/-!
The protocol of resty.redis on the wire: requests as `_gen_req` builds them, replies as
`_read_reply` takes them off the socket.

A Lua string is a list of bytes. Tables are as large as they need to be.
-/
namespace OpenrestyGateway
namespace Resp

abbrev Bytes := List UInt8

def cr : UInt8 := 13

def lf : UInt8 := 10

def crlf : Bytes := [cr, lf]

/-- The bytes of a text of ASCII characters. -/
def ascii (cs : List Char) : Bytes := cs.map (fun c => UInt8.ofNat c.toNat)

def chars (b : Bytes) : List Char := b.map (fun c => Char.ofNat c.toNat)

def number (b : Bytes) : Option ℚ := tonumber (String.ofList (chars b))

/-! ### The socket -/

/-- What the peer has sent and nobody has read, and the error of a read that needs more
than that. -/
structure Sock where
  incoming : Bytes
  failure : String
  closed : Bool

namespace Sock

def close (s : Sock) : Sock := { s with closed := true }

def isCr (c : UInt8) : Bool := c == cr

def notLf (c : UInt8) : Bool := c != lf

/-- `sock:receive()`: a line without its line feed. All carriage returns are ignored. -/
def receiveLine (s : Sock) : Except String Bytes × Sock :=
  if s.closed then (.error "closed", s)
  else
    match s.incoming.dropWhile notLf with
    | [] => (.error s.failure, { s with incoming := [] })
    | _ :: rest =>
        (.ok ((s.incoming.takeWhile notLf).filter (fun c => !isCr c)), { s with incoming := rest })

/-- `sock:receive(size)`. -/
def receive (s : Sock) (size : Nat) : Except String Bytes × Sock :=
  if s.closed then (.error "closed", s)
  else if size ≤ s.incoming.length then
    (.ok (s.incoming.take size), { s with incoming := s.incoming.drop size })
  else (.error s.failure, { s with incoming := [] })

def closeIf (timeout : Bool) (s : Sock) : Sock := if timeout then s.close else s

end Sock

/-! ### _read_reply -/

/-- A value a reply stands for. `error` is `false, text`, and the table `{false, text}`
inside of another reply. -/
inductive Reply where
  | null
  | str (b : Bytes)
  | num (q : ℚ)
  | arr (xs : List Reply)
  | error (text : Bytes)

/-- `nil, err` is a failure. -/
inductive Outcome where
  | reply (r : Reply)
  | failed (err : Option String)

abbrev Read := Except LuaError (Outcome × Sock)

/-- `nil, err` after a failed read within a reply. -/
def broken (err : String) (s : Sock) : Read :=
  .ok (.failed (some err), s.closeIf (err == "timeout"))

def readBulk (text : Bytes) (s : Sock) : Read :=
  match number text with
  | none => .error (.compare .nil .number)
  | some size =>
      if size < 0 then .ok (.reply .null, s)
      else
        match s.receive ⌊size⌋.toNat with
        | (.error err, s) => broken err s
        | (.ok data, s) =>
            match s.receive 2 with
            | (.error err, s) => broken err s
            | (.ok _, s) => .ok (.reply (.str data), s)

/-- The loop over the replies of a multi-bulk reply. -/
def readElements (read : Sock → Read) (vals : List Reply) : Nat → Sock → Read
  | 0, s => .ok (.reply (.arr vals), s)
  | n + 1, s =>
      match read s with
      | .error e => .error e
      | .ok (.failed err, s) => .ok (.failed err, s)
      | .ok (.reply r, s) => readElements read (vals ++ [r]) n s

def readMultiBulk (read : Sock → Read) (text : Bytes) (s : Sock) : Read :=
  match number text with
  | none => .error (.compare .nil .number)
  | some n => if n < 0 then .ok (.reply .null, s) else readElements read [] ⌊n⌋.toNat s

def readInteger (text : Bytes) (s : Sock) : Read :=
  match number text with
  | none => .ok (.failed none, s)
  | some q => .ok (.reply (.num q), s)

def unknownPrefix (c : Option UInt8) : String :=
  "unknown prefix: \"" ++ c.elim "nil" (fun c => toString c.toNat) ++ "\""

/-- What is done with a line. -/
def readBody (read : Sock → Read) (s : Sock) : Bytes → Read
  | [] => .ok (.failed (some (unknownPrefix none)), s)
  | c :: text =>
      if c = 36 then readBulk text s
      else if c = 43 then .ok (.reply (.str text), s)
      else if c = 42 then readMultiBulk read text s
      else if c = 58 then readInteger text s
      else if c = 45 then .ok (.reply (.error text), s)
      else .ok (.failed (some (unknownPrefix (some c))), s)

/-- `_read_reply`. Every reply takes at least one line, so the bytes that are there bound
the calls that are nested. -/
def readNested (subscribed : Bool) : Nat → Sock → Read
  | 0, s => .ok (.failed none, s)
  | fuel + 1, s =>
      match s.receiveLine with
      | (.error err, s) =>
          .ok (.failed (some err), s.closeIf (err == "timeout" && !subscribed))
      | (.ok line, s) => readBody (readNested subscribed fuel) s line

def readReply (subscribed : Bool) (s : Sock) : Read :=
  readNested subscribed (s.incoming.length + 1) s

/-! ### _gen_req -/

/-- An argument that is no string is turned into one by tostring. -/
inductive Arg where
  | string (b : Bytes)
  | other (tostring : Bytes)

def Arg.text : Arg → Bytes
  | .string b | .other b => b

/-- The pieces of a request; the socket writes them one after the other. -/
inductive Piece where
  | text (b : Bytes)
  | count (n : Nat)

def decimalBytes (n : Nat) : Bytes := ascii (Nat.toDigits 10 n)

def Piece.bytes : Piece → Bytes
  | .text b => b
  | .count n => decimalBytes n

def genArg (arg : Arg) : List Piece :=
  [.text [36], .count arg.text.length, .text crlf, .text arg.text, .text crlf]

def genReq (args : List Arg) : List Piece :=
  [.text [42], .count args.length, .text crlf] ++ args.flatMap genArg

def onWire (req : List Piece) : Bytes := req.flatMap Piece.bytes

/-! ### commit_pipeline -/

/-- The loop over the replies of a pipeline, with the number of those that are left. -/
def readReplies (subscribed : Bool) (vals : List Reply) :
    Nat → Sock → Except LuaError ((Option (List Reply) × Option String) × Sock)
  | 0, s => .ok ((some vals, none), s)
  | n + 1, s =>
      match readReply subscribed s with
      | .error e => .error e
      | .ok (.failed err, s) => .ok ((none, err), s.closeIf (err == some "timeout"))
      | .ok (.reply r, s) => readReplies subscribed (vals ++ [r]) n s

/-- `peer` is what becomes of the bytes that are sent: an error, or the socket with what
arrives on it. -/
def commitPipeline (subscribed : Bool) (reqs : List (List Piece))
    (peer : Bytes → Except String Sock) :
    Except LuaError ((Option (List Reply) × Option String) × Option Sock) :=
  match peer (reqs.flatMap onWire) with
  | .error err => .ok ((none, some err), none)
  | .ok s => (readReplies subscribed [] reqs.length s).map (fun r => (r.1, some r.2))

/-! ### The server's side -/

/-- A text that fits on a line. -/
structure Line where
  bytes : Bytes
  noCr : cr ∉ bytes
  noLf : lf ∉ bytes

/-- A reply as a server means it. -/
inductive Message where
  | bulk (data : Bytes)
  | nullBulk
  | nullArray
  | status (line : Line)
  | error (line : Line)
  | integer (i : Int)
  | array (xs : List Message)

def integerBytes : Int → Bytes
  | .ofNat n => decimalBytes n
  | .negSucc n => 45 :: decimalBytes (n + 1)

def header (c : UInt8) (line : Bytes) : Bytes := c :: (line ++ crlf)

mutual
def encode : Message → Bytes
  | .bulk data => header 36 (decimalBytes data.length) ++ (data ++ crlf)
  | .nullBulk => header 36 (integerBytes (-1))
  | .nullArray => header 42 (integerBytes (-1))
  | .status line => header 43 line.bytes
  | .error line => header 45 line.bytes
  | .integer i => header 58 (integerBytes i)
  | .array xs => header 42 (decimalBytes xs.length) ++ encodeAll xs

def encodeAll : List Message → Bytes
  | [] => []
  | x :: xs => encode x ++ encodeAll xs
end

mutual
def Message.value : Message → Reply
  | .bulk data => .str data
  | .nullBulk | .nullArray => .null
  | .status line => .str line.bytes
  | .error line => .error line.bytes
  | .integer i => .num i
  | .array xs => .arr (valuesOf xs)

def valuesOf : List Message → List Reply
  | [] => []
  | x :: xs => x.value :: valuesOf xs
end

/-! ### Numbers on a line -/

theorem char_of_ascii {c : Char} (h : c.toNat < 256) :
    Char.ofNat (UInt8.ofNat c.toNat).toNat = c := by
  have hbyte : (UInt8.ofNat c.toNat).toNat = c.toNat := by
    rw [UInt8.toNat_ofNat']
    exact Nat.mod_eq_of_lt h
  rw [hbyte]
  exact Char.ofNat_toNat c

theorem chars_ascii {cs : List Char} (h : ∀ c ∈ cs, c.toNat < 256) : chars (ascii cs) = cs := by
  induction cs with
  | nil => rfl
  | cons c cs ih =>
      simp only [chars, ascii, List.map_cons, List.map_map] at ih ⊢
      rw [char_of_ascii (h c (.head cs)), ih (fun d hd => h d (.tail c hd))]

theorem toNat_digit {c : Char} (h : c.isDigit = true) : 48 ≤ c.toNat ∧ c.toNat ≤ 57 := by
  simpa [Char.isDigit, Char.le_def, UInt32.le_iff_toNat_le] using h

theorem isDigit_toDigits {n : Nat} : ∀ c ∈ Nat.toDigits 10 n, c.isDigit = true :=
  fun _ hc => Nat.isDigit_of_mem_toDigits (by omega) (le_refl 10) hc

theorem chars_decimalBytes (n : Nat) : chars (decimalBytes n) = Nat.toDigits 10 n := by
  refine chars_ascii (fun c hc => ?_)
  have := toNat_digit (isDigit_toDigits c hc)
  omega

theorem decimal_toDigits (n : Nat) : decimal (Nat.toDigits 10 n) = n := by
  have hvalue := Nat.ofDigitChars_toDigits (by omega : 1 < 10) (le_refl 10) (n := n)
  rw [Nat.ofDigitChars_eq_foldl] at hvalue
  rw [decimal]
  refine Eq.trans (congrArg (fun f => List.foldl f 0 (Nat.toDigits 10 n)) ?_) hvalue
  funext a c
  rw [Nat.mul_comm a 10]
  rfl

theorem number_decimalBytes (n : Nat) : number (decimalBytes n) = some (n : ℚ) := by
  rw [number, chars_decimalBytes, tonumber_digits Nat.toDigits_ne_nil isDigit_toDigits,
    decimal_toDigits]

end Resp
end OpenrestyGateway
