import LlmGateway.Types

/-!
# Token estimates

`src/utils/token_counter.cpp`: a scan that cuts a text at whitespace and
punctuation and the words between into pieces of at most four bytes.
-/

namespace Gateway

namespace TokenCounter

/-- The two variables of the scan: the tokens found and the word being read. -/
structure Scan where
  tokens : List Str := []
  current : Str := []
  deriving DecidableEq, Repr

/-- The loop that cuts a finished word into pieces of four bytes and pushes
what is left of it. -/
def pieces : Str → List Str
  | a :: b :: c :: d :: rest => [a, b, c, d] :: pieces rest
  | [] => []
  | short => [short]

/-- End the current word. -/
def Scan.flush (s : Scan) : Scan := { tokens := s.tokens ++ pieces s.current }

/-- One byte of the text. -/
def Scan.step (P : Platform) (s : Scan) (c : UInt8) : Scan :=
  if P.isspace c then
    let s := s.flush
    if c = byte '\n' then { s with tokens := s.tokens ++ [[c]] } else s
  else if P.ispunct c then
    let s := s.flush
    { s with tokens := s.tokens ++ [[c]] }
  else { s with current := s.current ++ [c] }

/-- `TokenCounter::tokenize`. -/
def tokenize (P : Platform) (text : Str) : List Str :=
  (text.foldl (Scan.step P) {}).flush.tokens

/-- `TokenCounter::count`. -/
def count (P : Platform) (text : Str) : ℤ :=
  if text.isEmpty then 0 else wrap32 (tokenize P text).length

/-- `TokenCounter::count_messages`: four tokens of overhead for each message
and two for the reply. -/
def countMessages (P : Platform) (messages : List Message) : ℤ :=
  let total := messages.foldl
    (fun total msg => wrap32 (wrap32 (total + 4) + count P msg.content)) 0
  wrap32 (total + 2)

end TokenCounter

end Gateway
