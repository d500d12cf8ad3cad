import Mathlib.Data.List.AList
import Mathlib.Data.List.DropRight
import KVCacheRaft.Codec.Decimal

/-!
# The configuration file

Every server appends the line with its address and the line with its port to the file
(`RpcProvider::Run`), and servers and clerks read it with `MrpcConfig` to learn of the nodes
(`KvServer::KvServer`, `Clerk::Init`). A character of the model is a byte of the file.
-/

namespace KVCacheRaft

open Codecs

/-! ### `MrpcConfig` -/

/-- `fgets` into a buffer with room for `size` characters: what it reads, what is left of the file, and
whether it came to its end. -/
def fgets : ℕ → List Char → List Char × List Char × Bool
  | 0, pf => ([], pf, false)
  | _ + 1, [] => ([], [], true)
  | size + 1, c :: pf =>
    if c = '\n' then (['\n'], pf, false)
    else
      let (buf, rest, eof) := fgets size pf
      (c :: buf, rest, eof)

/-- The buffers of the loop of `LoadConfigFile`, until `feof`. -/
def readBuffers : ℕ → List Char → List (List Char)
  | 0, _ => []
  | fuel + 1, pf =>
    let (buf, rest, eof) := fgets 511 pf
    buf :: if eof then [] else readBuffers fuel rest

/-- `Trim`; what is all blanks stays as it is. -/
def trim (src_buf : List Char) : List Char :=
  let src_buf := if src_buf.all (· = ' ') then src_buf else src_buf.dropWhile (· = ' ')
  if src_buf.all (· = ' ') then src_buf else src_buf.rdropWhile (· = ' ')

/-- The key and the value of a line, unless it is a comment, empty or no item. -/
def parseLine (buf : List Char) : Option (List Char × List Char) :=
  let read_buf := trim (buf.takeWhile (· ≠ '\x00'))
  if read_buf.head? = some '#' ∨ read_buf = [] then none
  else if '=' ∉ read_buf then none
  else
    let key := trim (read_buf.takeWhile (· ≠ '='))
    let value := trim (((read_buf.dropWhile (· ≠ '=')).drop 1).takeWhile (· ≠ '\n'))
    some (key, value)

/-- `class MrpcConfig`. -/
structure MrpcConfig where
  m_configMap : AList fun _ : List Char => List Char

namespace MrpcConfig

/-- `insert` into `m_configMap`, which leaves a key that is there as it is. -/
def insert (config : MrpcConfig) (item : List Char × List Char) : MrpcConfig :=
  if item.1 ∈ config.m_configMap then config
  else { m_configMap := config.m_configMap.insert item.1 item.2 }

/-- `LoadConfigFile` on a new `MrpcConfig`. -/
def loadConfigFile (pf : List Char) : MrpcConfig :=
  ((readBuffers (pf.length + 1) pf).filterMap parseLine).foldl insert ⟨∅⟩

/-- `Load`. -/
def load (config : MrpcConfig) (key : List Char) : List Char :=
  (config.m_configMap.lookup key).getD []

end MrpcConfig

/-! ### The lines of the servers -/

/-- `"node" + std::to_string(i)`, and what the lines of the node are about. -/
def nodeKey (i : ℕ) (field : List Char) : List Char :=
  ['n', 'o', 'd', 'e'] ++ (Nat.toDigits 10 i ++ field)

/-- The dotted decimal of `inet_ntoa`. -/
def inetNtoa (a b c d : UInt8) : List Char :=
  Nat.toDigits 10 a.toNat ++ '.' :: (Nat.toDigits 10 b.toNat ++ '.' ::
    (Nat.toDigits 10 c.toNat ++ '.' :: Nat.toDigits 10 d.toNat))

/-- A line that `RpcProvider::Run` appends; `port` is a `short`. -/
inductive NodeLine where
  | ip (nodeIndex : ℕ) (a b c d : UInt8)
  | port (nodeIndex : ℕ) (port : Int16)
deriving DecidableEq

namespace NodeLine

def nodeIndex : NodeLine → ℕ
  | ip nodeIndex _ _ _ _ => nodeIndex
  | port nodeIndex _ => nodeIndex

def key : NodeLine → List Char
  | ip nodeIndex _ _ _ _ => nodeKey nodeIndex ['i', 'p']
  | port nodeIndex _ => nodeKey nodeIndex ['p', 'o', 'r', 't']

def value : NodeLine → List Char
  | ip _ a b c d => inetNtoa a b c d
  | port _ n => toText n.toInt

def text (line : NodeLine) : List Char := line.key ++ '=' :: (line.value ++ ['\n'])

end NodeLine

/-- `INT_MAX - 1`. -/
def maxNodes : ℕ := 2147483646

/-- The loop of `Clerk::Init` and `KvServer::KvServer` at node `i`, up to the first node without an
address; what `atoi` returns is cut to a `short`. -/
def ipPorts (config : MrpcConfig) : ℕ → ℕ → List (List Char × ℤ)
  | 0, _ => []
  | fuel + 1, i =>
    let nodeIp := config.load (nodeKey i ['i', 'p'])
    let nodePortStr := config.load (nodeKey i ['p', 'o', 'r', 't'])
    if nodeIp = [] then []
    else (nodeIp, (atoi nodePortStr).bmod (2 ^ 16)) :: ipPorts config fuel (i + 1)

/-! ### Reading a line -/

/-- `fgets` reads a line that fits to its end. -/
lemma fgets_line {body : List Char} (hbody : '\n' ∉ body) (rest : List Char) {size : ℕ}
    (hsize : body.length < size) :
    fgets size (body ++ '\n' :: rest) = (body ++ ['\n'], rest, false) := by
  induction body generalizing size with
  | nil =>
    cases size with
    | zero => cases hsize
    | succ size => rfl
  | cons c body ih =>
    cases size with
    | zero => cases hsize
    | succ size =>
      have hc : c ≠ '\n' := fun h => hbody (h ▸ List.mem_cons_self)
      rw [List.cons_append, fgets, if_neg hc,
        ih (fun h => hbody (List.mem_cons_of_mem _ h)) (Nat.lt_of_succ_lt_succ hsize)]
      rfl

/-- `Trim` leaves a text without blanks. -/
lemma trim_of_notMem {s : List Char} (h : ' ' ∉ s) : trim s = s := by
  have hne : ∀ c ∈ s, c ≠ ' ' := fun c hc heq => h (heq ▸ hc)
  have hdrop : s.dropWhile (· = ' ') = s := by
    cases s with
    | nil => rfl
    | cons c s => rw [List.dropWhile_cons_of_neg (by simpa using hne c List.mem_cons_self)]
  have hrdrop : s.rdropWhile (· = ' ') = s := by
    rw [List.rdropWhile_eq_self_iff]
    intro hnil
    simpa using hne _ (List.getLast_mem hnil)
  simp only [trim, hdrop, hrdrop, ite_self]

/-- A character of the keys and values. -/
def Plain (c : Char) : Prop := c ≠ ' ' ∧ c ≠ '=' ∧ c ≠ '\n' ∧ c ≠ '\x00'

instance (c : Char) : Decidable (Plain c) := inferInstanceAs (Decidable (_ ∧ _))

/-- Digits are plain. -/
lemma plain_of_isDigit {c : Char} (h : c.isDigit = true) : Plain c := by
  refine ⟨?_, ?_, ?_, ?_⟩ <;>
  · rintro rfl
    exact absurd h (by decide)

/-- The digits of a number are plain. -/
lemma plain_digits (n : ℕ) : ∀ c ∈ Nat.toDigits 10 n, Plain c :=
  fun _ hc => plain_of_isDigit (isDigit_of_mem hc)

/-- The key of a node is plain. -/
lemma plain_nodeKey (i : ℕ) {field : List Char} (h : ∀ c ∈ field, Plain c) :
    ∀ c ∈ nodeKey i field, Plain c := by
  refine List.forall_mem_append.mpr ⟨by simp [Plain], List.forall_mem_append.mpr ⟨plain_digits i, h⟩⟩

/-- An address is plain. -/
lemma plain_inetNtoa (a b c d : UInt8) : ∀ x ∈ inetNtoa a b c d, Plain x := by
  have hdot : ∀ {n : ℕ} {s : List Char}, (∀ x ∈ s, Plain x) →
      ∀ x ∈ Nat.toDigits 10 n ++ '.' :: s, Plain x := fun hs =>
    List.forall_mem_append.mpr ⟨plain_digits _, List.forall_mem_cons.mpr ⟨by decide, hs⟩⟩
  exact hdot (hdot (hdot (plain_digits _)))

/-- A number in a line is plain. -/
lemma plain_toText (n : ℤ) : ∀ x ∈ toText n, Plain x := by
  rw [toText]
  split_ifs
  · exact List.forall_mem_cons.mpr ⟨by decide, plain_digits _⟩
  · exact plain_digits _

/-- An item is read as it was written. -/
lemma parseLine_item {key value : List Char} (hkey : ∀ c ∈ key, Plain c)
    (hvalue : ∀ c ∈ value, Plain c) (hhead : key.head? = some 'n') :
    parseLine (key ++ '=' :: (value ++ ['\n'])) = some (key, value) := by
  have hall : ∀ c ∈ key ++ '=' :: (value ++ ['\n']), c ≠ ' ' ∧ c ≠ '\x00' :=
    List.forall_mem_append.mpr ⟨fun c hc => ⟨(hkey c hc).1, (hkey c hc).2.2.2⟩,
      List.forall_mem_cons.mpr ⟨by decide, List.forall_mem_append.mpr
        ⟨fun c hc => ⟨(hvalue c hc).1, (hvalue c hc).2.2.2⟩, by simp⟩⟩⟩
  have hbuf : (key ++ '=' :: (value ++ ['\n'])).takeWhile (· ≠ '\x00') =
      key ++ '=' :: (value ++ ['\n']) :=
    List.takeWhile_eq_self_iff.mpr fun c hc => decide_eq_true (hall c hc).2
  have htrim := trim_of_notMem fun h => (hall ' ' h).1 rfl
  have hne : ∀ c ∈ key, decide (c ≠ '=') = true := fun c hc => decide_eq_true (hkey c hc).2.1
  have hkeyIs : (key ++ '=' :: (value ++ ['\n'])).takeWhile (· ≠ '=') = key := by
    rw [List.takeWhile_append_of_pos hne, List.takeWhile_cons_of_neg (by decide), List.append_nil]
  have hrest : (key ++ '=' :: (value ++ ['\n'])).dropWhile (· ≠ '=') = '=' :: (value ++ ['\n']) := by
    rw [List.dropWhile_append_of_pos hne, List.dropWhile_cons_of_neg (by decide)]
  have hvalueIs : (value ++ ['\n']).takeWhile (· ≠ '\n') = value := by
    rw [List.takeWhile_append_of_pos fun c hc => decide_eq_true (hvalue c hc).2.2.1,
      List.takeWhile_cons_of_neg (by decide), List.append_nil]
  rw [parseLine, hbuf, htrim]
  simp only [hkeyIs, hrest, List.drop_one, List.tail_cons, hvalueIs]
  rw [if_neg, if_neg, trim_of_notMem fun h => (hkey ' ' h).1 rfl,
    trim_of_notMem fun h => (hvalue ' ' h).1 rfl]
  · simp
  · rw [List.head?_append, hhead]
    simp

/-! ### Reading the file -/

namespace MrpcConfig

variable {config : MrpcConfig} {items : List (List Char × List Char)} {k : List Char}

/-- The first line about a key is the one that counts. -/
lemma lookup_insert (config : MrpcConfig) (item : List Char × List Char) (k : List Char) :
    (config.insert item).m_configMap.lookup k =
      (config.m_configMap.lookup k).or (if item.1 = k then some item.2 else none) := by
  rw [insert]
  split_ifs with hmem hk hk
  · obtain ⟨v, hv⟩ := Option.isSome_iff_exists.mp (AList.lookup_isSome.mpr (hk ▸ hmem))
    rw [hv]
    rfl
  · rw [Option.or_none]
  · subst hk
    rw [AList.lookup_insert, AList.lookup_eq_none.mpr hmem]
    rfl
  · rw [AList.lookup_insert_ne (Ne.symm hk), Option.or_none]

/-- The first item with a key stays. -/
lemma lookup_foldl :
    (items.foldl insert config).m_configMap.lookup k =
      (config.m_configMap.lookup k).or ((items.find? (·.1 = k)).map (·.2)) := by
  induction items generalizing config with
  | nil => exact (Option.or_none).symm
  | cons item items ih =>
    rw [List.foldl_cons, ih, lookup_insert, Option.or_assoc, List.find?_cons]
    by_cases hk : item.1 = k
    · simp [hk]
    · simp [hk]

end MrpcConfig

namespace NodeLine

variable {line : NodeLine} {lines : List NodeLine}

/-- The key of a line is plain. -/
lemma plain_key (line : NodeLine) : ∀ c ∈ line.key, Plain c := by
  cases line with
  | ip i a b c d => exact plain_nodeKey i (by simp [Plain])
  | port i n => exact plain_nodeKey i (by simp [Plain])

/-- The value of a line is plain. -/
lemma plain_value (line : NodeLine) : ∀ c ∈ line.value, Plain c := by
  cases line with
  | ip i a b c d => exact plain_inetNtoa a b c d
  | port i n => exact plain_toText _

/-- A key begins with the word for a node. -/
lemma head?_key (line : NodeLine) : line.key.head? = some 'n' := by
  cases line <;> rfl

/-- A number below a power of ten has few digits. -/
lemma length_toDigits_le {n k : ℕ} (hk : 0 < k) (h : n < 10 ^ k) : (Nat.toDigits 10 n).length ≤ k :=
  (Nat.length_toDigits_le_iff (by decide) hk).mpr h

/-- A line is short enough for the buffer. -/
lemma length_text (h : line.nodeIndex < 2 ^ 31) : (line.key ++ '=' :: line.value).length < 511 := by
  have hindex : (Nat.toDigits 10 line.nodeIndex).length ≤ 10 :=
    length_toDigits_le (by decide) (h.trans (by decide))
  cases line with
  | ip i a b c d =>
    have hbyte : ∀ x : UInt8, (Nat.toDigits 10 x.toNat).length ≤ 3 := fun x =>
      length_toDigits_le (by decide) (x.toNat_lt.trans (by decide))
    have ha := hbyte a
    have hb := hbyte b
    have hc := hbyte c
    have hd := hbyte d
    simp only [nodeIndex] at hindex
    simp only [key, value, nodeKey, inetNtoa, List.length_append, List.length_cons, List.length_nil]
    omega
  | port i n =>
    have hle := n.le_toInt
    have hlt := n.toInt_lt
    have hport : (toText n.toInt).length ≤ 6 := by
      have hdigits : (Nat.toDigits 10 n.toInt.natAbs).length ≤ 5 :=
        length_toDigits_le (by decide) (by omega)
      rw [toText]
      split_ifs
      · exact Nat.succ_le_succ hdigits
      · exact Nat.le_succ_of_le hdigits
    simp only [nodeIndex] at hindex
    simp only [key, value, nodeKey, List.length_append, List.length_cons, List.length_nil]
    omega

/-- The lines of the file are read one by one. -/
lemma readBuffers_text (h : ∀ line ∈ lines, line.nodeIndex < 2 ^ 31) {fuel : ℕ}
    (hfuel : lines.length < fuel) : readBuffers fuel (lines.flatMap text) = lines.map text ++ [[]] := by
  induction lines generalizing fuel with
  | nil =>
    cases fuel with
    | zero => cases hfuel
    | succ fuel => rfl
  | cons line lines ih =>
    cases fuel with
    | zero => cases hfuel
    | succ fuel =>
      have hbody : '\n' ∉ line.key ++ '=' :: line.value := by
        intro hmem
        have hall : ∀ c ∈ line.key ++ '=' :: line.value, c ≠ '\n' :=
          List.forall_mem_append.mpr ⟨fun c hc => (line.plain_key c hc).2.2.1,
            List.forall_mem_cons.mpr ⟨by decide, fun c hc => (line.plain_value c hc).2.2.1⟩⟩
        exact hall _ hmem rfl
      have htext : (line :: lines).flatMap text =
          (line.key ++ '=' :: line.value) ++ '\n' :: lines.flatMap text := by
        simp [text]
      have hread := ih (fun l hl => h l (List.mem_cons_of_mem _ hl)) (Nat.lt_of_succ_lt_succ hfuel)
      rw [readBuffers, htext, fgets_line hbody _ (length_text (h line List.mem_cons_self))]
      simp only [Bool.false_eq_true, if_false, hread, List.map_cons, List.cons_append, List.cons.injEq,
        and_true]
      simp [text]

/-- A line is taken apart into its key and value. -/
lemma parseLine_text (line : NodeLine) : parseLine line.text = some (line.key, line.value) :=
  parseLine_item line.plain_key line.plain_value line.head?_key

/-- `Load` gives the value of the first line with the key. -/
lemma load_lines (h : ∀ line ∈ lines, line.nodeIndex < 2 ^ 31) (k : List Char) :
    (MrpcConfig.loadConfigFile (lines.flatMap text)).load k =
      ((lines.find? (·.key = k)).map value).getD [] := by
  have hlen : ∀ lines : List NodeLine, lines.length ≤ (lines.flatMap text).length := by
    intro lines
    induction lines with
    | nil => exact Nat.le_refl 0
    | cons line lines ih =>
      rw [List.flatMap_cons, List.length_append, List.length_cons]
      have hpos : 0 < line.text.length := by simp [text]
      omega
  have hitems : (lines.map text ++ [[]]).filterMap parseLine =
      lines.map fun line => (line.key, line.value) := by
    rw [List.filterMap_append, List.filterMap_map]
    have hcomp : parseLine ∘ text = fun line => some (line.key, line.value) := funext parseLine_text
    rw [hcomp, List.filterMap_eq_map']
    exact List.append_nil _
  rw [MrpcConfig.load, MrpcConfig.loadConfigFile, readBuffers_text h (Nat.lt_succ_of_le (hlen lines)),
    hitems, MrpcConfig.lookup_foldl, List.find?_map]
  simp only [AList.lookup_empty, Option.none_or, Option.map_map]
  rfl

/-- The address of node `i`, by the first line about it. -/
def ipOf (lines : List NodeLine) (i : ℕ) : Option (List Char) :=
  lines.findSome? fun
    | ip j a b c d => if j = i then some (inetNtoa a b c d) else none
    | port _ _ => none

/-- The port of node `i`, by the first line about it. -/
def portOf (lines : List NodeLine) (i : ℕ) : Option Int16 :=
  lines.findSome? fun
    | ip _ _ _ _ _ => none
    | port j n => if j = i then some n else none

/-- A key tells the node and the field. -/
lemma nodeKey_inj {i j : ℕ} {field field' : List Char} (hfield : ∀ c ∈ field.head?, c.isDigit = false)
    (hfield' : ∀ c ∈ field'.head?, c.isDigit = false) :
    nodeKey i field = nodeKey j field' ↔ i = j ∧ field = field' := by
  constructor
  · intro h
    have happend := List.append_cancel_left h
    have hdigits := congrArg readDigits happend
    rw [readDigits_append hfield, readDigits_append hfield'] at hdigits
    obtain rfl := toDigits_inj hdigits
    exact ⟨rfl, List.append_cancel_left happend⟩
  · rintro ⟨rfl, rfl⟩
    rfl

lemma isDigit_ip : ∀ c ∈ ['i', 'p'].head?, c.isDigit = false := by
  rintro c ⟨⟩
  rfl

lemma isDigit_port : ∀ c ∈ ['p', 'o', 'r', 't'].head?, c.isDigit = false := by
  rintro c ⟨⟩
  rfl

/-- What `Load` gives for a key, when `f` gives what the lines with the key are about. -/
lemma load_first (h : ∀ line ∈ lines, line.nodeIndex < 2 ^ 31) {α : Type} {k : List Char}
    {f : NodeLine → Option α} {g : α → List Char}
    (hkey : ∀ line : NodeLine, line.key = k → (f line).map g = some line.value)
    (hother : ∀ line : NodeLine, line.key ≠ k → f line = none) :
    (MrpcConfig.loadConfigFile (lines.flatMap text)).load k =
      ((lines.findSome? f).map g).getD [] := by
  rw [load_lines h]
  congr 1
  clear h
  induction lines with
  | nil => rfl
  | cons line lines ih =>
    rw [List.find?_cons, List.findSome?_cons]
    by_cases hk : line.key = k
    · obtain ⟨x, hx, hshown⟩ := Option.map_eq_some_iff.mp (hkey line hk)
      simp [hk, hx, hshown]
    · simpa [hk, hother line hk] using ih

/-- The address of a node is that of the first line about it. -/
lemma load_ip (h : ∀ line ∈ lines, line.nodeIndex < 2 ^ 31) (i : ℕ) :
    (MrpcConfig.loadConfigFile (lines.flatMap text)).load (nodeKey i ['i', 'p']) =
      (ipOf lines i).getD [] := by
  rw [ipOf, load_first h (g := id), Option.map_id]
  · rfl
  · intro line hk
    cases line with
    | ip j a b c d => simp [((nodeKey_inj isDigit_ip isDigit_ip).mp hk).1, value]
    | port j n => exact absurd ((nodeKey_inj isDigit_port isDigit_ip).mp hk).2 (by decide)
  · intro line hk
    cases line with
    | ip j a b c d => exact if_neg fun hj => hk (by rw [hj]; rfl)
    | port j n => rfl

/-- The port of a node is that of the first line about it. -/
lemma load_port (h : ∀ line ∈ lines, line.nodeIndex < 2 ^ 31) (i : ℕ) :
    (MrpcConfig.loadConfigFile (lines.flatMap text)).load (nodeKey i ['p', 'o', 'r', 't']) =
      ((portOf lines i).map fun n => toText n.toInt).getD [] := by
  rw [portOf, load_first h]
  · intro line hk
    cases line with
    | port j n => simp [((nodeKey_inj isDigit_port isDigit_port).mp hk).1, value]
    | ip j a b c d => exact absurd ((nodeKey_inj isDigit_ip isDigit_port).mp hk).2 (by decide)
  · intro line hk
    cases line with
    | port j n => exact if_neg fun hj => hk (by rw [hj]; rfl)
    | ip j a b c d => rfl

/-- An address is not empty. -/
lemma ipOf_ne_nil {i : ℕ} {address : List Char} (h : ipOf lines i = some address) : address ≠ [] := by
  obtain ⟨line, -, hline⟩ := List.exists_of_findSome?_eq_some h
  cases line with
  | ip j a b c d =>
    simp only at hline
    split_ifs at hline
    obtain rfl := Option.some.inj hline
    simp [inetNtoa]
  | port j n => cases hline

end NodeLine

open NodeLine

/-- The loop lists the nodes up to the first one missing. -/
lemma ipPorts_from {lines : List NodeLine} (h : ∀ line ∈ lines, line.nodeIndex < 2 ^ 31) {n i fuel : ℕ}
    (hfuel : n < fuel) (hall : ∀ j < n, (ipOf lines (i + j)).isSome) (hend : ipOf lines (i + n) = none) :
    ipPorts (MrpcConfig.loadConfigFile (lines.flatMap text)) fuel i =
      (List.range n).map fun j =>
        ((ipOf lines (i + j)).getD [], ((portOf lines (i + j)).getD 0).toInt) := by
  induction n generalizing i fuel with
  | zero =>
    cases fuel with
    | zero => cases hfuel
    | succ fuel =>
      rw [ipPorts, load_ip h, show ipOf lines i = none from hend]
      rfl
  | succ n ih =>
    cases fuel with
    | zero => cases hfuel
    | succ fuel =>
      obtain ⟨address, haddress⟩ := Option.isSome_iff_exists.mp (hall 0 (Nat.succ_pos n))
      rw [Nat.add_zero] at haddress
      have hport : (atoi (((portOf lines i).map fun n => toText n.toInt).getD [])).bmod (2 ^ 16) =
          ((portOf lines i).getD 0).toInt := by
        cases portOf lines i with
        | none => rfl
        | some p =>
          have hread := atoi_toText (r := []) p.toInt fun c hc => by cases hc
          rw [List.append_nil] at hread
          simp [hread]
      have hrest := ih (i := i + 1) (Nat.lt_of_succ_lt_succ hfuel)
        (fun j hj => by
          have hsome := hall (j + 1) (Nat.succ_lt_succ hj)
          rwa [show i + (j + 1) = i + 1 + j by omega] at hsome)
        (by rwa [show i + (n + 1) = i + 1 + n by omega] at hend)
      rw [ipPorts, load_ip h, load_port h, hrest, haddress]
      simp only [Option.getD_some, if_neg (ipOf_ne_nil haddress), hport, List.range_succ_eq_map,
        List.map_cons, List.map_map, Nat.add_zero, haddress]
      congr 1
      refine List.map_congr_left fun j _ => ?_
      simp only [Function.comp, show i + 1 + j = i + (j + 1) by omega, Nat.succ_eq_add_one]

/-- In whatever order the servers have appended their lines, some of them more than once, every reader
finds the same nodes, in the order of their numbers and up to the first that is missing: each with the
address and the port of the first lines about it, as they were when they were written. -/
theorem ipPorts_lines {lines : List NodeLine} (h : ∀ line ∈ lines, line.nodeIndex < 2 ^ 31) {n : ℕ}
    (hn : n < maxNodes) (hall : ∀ i < n, (ipOf lines i).isSome) (hend : ipOf lines n = none) :
    ipPorts (MrpcConfig.loadConfigFile (lines.flatMap text)) maxNodes 0 =
      (List.range n).map fun i => ((ipOf lines i).getD [], ((portOf lines i).getD 0).toInt) := by
  have hfrom := ipPorts_from (i := 0) h hn (by simpa using hall) (by simpa using hend)
  simpa using hfrom

/-- Two nodes; the lines of node `1` come first and once more at the end with another port. -/
theorem ipPorts_lines_two :
    ipPorts (MrpcConfig.loadConfigFile ([ip 1 127 0 0 1, port 1 (-20000), ip 0 127 0 0 1,
        port 0 10000, ip 1 127 0 0 1, port 1 15000].flatMap text)) maxNodes 0 =
      [(inetNtoa 127 0 0 1, 10000), (inetNtoa 127 0 0 1, -20000)] :=
  ipPorts_lines (n := 2) (by decide) (by decide) (by decide) (by decide)

end KVCacheRaft
