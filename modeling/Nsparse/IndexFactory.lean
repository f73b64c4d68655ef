/-
Nsparse/IndexFactory.lean

Making an index from its description.

A description is cut at its commas: the first segment names the index type, the second
has the parameters, cut at `|` and each at its `=`, and the rest is not read.  An id map
has the description of its delegate behind the first comma.  What a library call makes
of the text of a float is a parameter; the texts of integers are read as `strtol` and
`strtoul` do.

`factoryOf` says without recursion on texts what a list of segments describes, and
`indexFactory_eq_factoryOf` that the factory makes it.  From there, a description written
for an index, in any order, with blanks, other entries and segments behind it, under any
number of id maps, makes that index (`indexFactory_described`).
-/
import Nsparse.Lib.DelimitedText
import Nsparse.PlainIndex

namespace Nsparse

open DelimitedText

/-- A `std::string`. -/
abbrev Text := List Char

/-! ### Texts -/

/-- `split`. -/
def split (delimiter : Char) : Text → List Text
  | [] => [[]]
  | c :: rest =>
      if c = delimiter then [] :: split delimiter rest
      else (split delimiter rest).modifyHead (c :: ·)

theorem split_eq_splitOn (delimiter : Char) (str : Text) :
    split delimiter str = str.splitOn delimiter := by
  induction str with
  | nil => rfl
  | cons c rest ih =>
      rw [split, List.splitOn_cons_eq_if_modifyHead, ih]
      simp only [beq_iff_eq]

/-- The characters that `trim` drops. -/
def isBlank (c : Char) : Bool := c = ' ' || c = '\t' || c = '\n' || c = '\r'

/-- `trim`. -/
def trim (str : Text) : Text := (str.dropWhile isBlank).rdropWhile isBlank

/-- `std::isspace`. -/
def isSpace (c : Char) : Bool :=
  c = ' ' || c = '\t' || c = '\n' || c = Char.ofNat 11 || c = Char.ofNat 12 || c = '\r'

/-- The digits at the start and their value; nothing without a digit. -/
def readDigits (negative : Bool) (str : Text) : Option (Bool × ℕ) :=
  match str.takeWhile Char.isDigit with
  | [] => none
  | digits => some (negative, Nat.ofDigitChars 10 digits 0)

/-- What `strtol` and `strtoul` read in base 10: behind white space a sign and the digits; what
follows them is left. -/
def readDecimal (str : Text) : Option (Bool × ℕ) :=
  match str.dropWhile isSpace with
  | '-' :: rest => readDigits true rest
  | '+' :: rest => readDigits false rest
  | rest => readDigits false rest

/-- `std::stoi`. -/
def stoi (str : Text) : Except Exception ℤ :=
  match readDecimal str with
  | none => .error (.invalidArgument "stoi")
  | some (negative, n) =>
      let value : ℤ := if negative then -n else n
      if -2 ^ 31 ≤ value ∧ value < 2 ^ 31 then .ok value else .error (.outOfRange "stoi")

/-- `std::stoul`, which takes a sign and negates in 64 bits. -/
def stoul (str : Text) : Except Exception ℕ :=
  match readDecimal str with
  | none => .error (.invalidArgument "stoul")
  | some (negative, n) =>
      if n < 2 ^ 64 then .ok (if negative then (2 ^ 64 - n) % 2 ^ 64 else n)
      else .error (.outOfRange "stoul")

/-- `std::to_string`. -/
def toText : ℤ → Text
  | .ofNat n => Nat.toDigits 10 n
  | .negSucc n => '-' :: Nat.toDigits 10 (n + 1)

/-! ### Parameters -/

/-- The pairs that were parsed. -/
abbrev Params := List (Text × Text)

/-- The parameters in the second segment; a token without exactly one `=` is skipped. -/
def parseParams (segment : Text) : Params :=
  (split '|' segment).filterMap fun token =>
    match split '=' token with
    | [key, value] => some (trim key, trim value)
    | _ => none

/-- `get_param`: the first value of the key. -/
def getParam (params : Params) (key default : Text) : Text :=
  match params.find? (fun param => param.1 = key) with
  | some param => param.2
  | none => default

section Factory

variable {F : Type} [LinearOrder F] [FloatFormat F]

/-- `parse_cluster_params`. -/
def parseClusterParams (stof : Text → Except Exception F) (params : Params) :
    Except Exception (SeismicClusterParameters F) := do
  let lambda ← stoi (getParam params "lambda".toList "10".toList)
  let beta ← stoi (getParam params "beta".toList "5".toList)
  let alpha ← stof (getParam params "alpha".toList "0.5".toList)
  let batchSize ← stoul (getParam params "inverted_list_batch_size".toList "1".toList)
  let batchFileOutputPath := String.ofList (getParam params "batch_file_output_path".toList "".toList)
  let seed ← stoi (getParam params "seed".toList (toText kRandomSeed))
  .ok ⟨lambda, beta, alpha, ⟨batchSize, batchFileOutputPath⟩, seed⟩

/-- `parse_quantizer_config`. -/
def parseQuantizerConfig (stof : Text → Except Exception F) (params : Params) :
    Except Exception (QuantizerType × F × F) := do
  let quantizerStr := getParam params "quantizer".toList "8bit".toList
  let type ←
    if quantizerStr = "8bit".toList then .ok QuantizerType.QT_8bit
    else if quantizerStr = "16bit".toList then .ok QuantizerType.QT_16bit
    else .error (.invalidArgument
      ("unknown quantizer '" ++ String.ofList quantizerStr ++ "'; expected '8bit' or '16bit'"))
  let vmin ← stof (getParam params "vmin".toList "0.0".toList)
  let vmax ← stof (getParam params "vmax".toList "1.0".toList)
  .ok (type, vmin, vmax)

/-! ### The factory -/

/-- What the factory makes: an index, or an id map over what it makes. -/
inductive FactoryIndex (F : Type) [LT F] [FloatFormat F]
  | plain (x : PlainIndex F)
  | idMap (m : IDMapIndex (FactoryIndex F))

theorem length_delegate_lt {desc : Text} (h : desc ≠ []) :
    ([','].intercalate (split ',' desc).tail).length < desc.length := by
  rw [split_eq_splitOn]
  exact length_intercalate_tail_lt h

/-- `index_factory`, from a null pointer or a text. -/
def indexFactory (stof : Text → Except Exception F) (dimension : ℕ) (description : Option Text) :
    Except Exception (FactoryIndex F) :=
  if _hempty : description.getD [] = [] then
    .error (.invalidArgument "Description cannot be null or empty")
  else
    let segments := split ',' (description.getD [])
    let indexType := trim (segments.headD [])
    let params := (segments.tail.head?).elim [] parseParams
    if indexType = "brutal".toList then
      .ok (.plain (.brutal (BrutalIndex.new dimension)))
    else if indexType = "inverted".toList then
      .ok (.plain (.inverted (InvertedIndex.new dimension)))
    else if indexType = "seismic".toList then do
      let parameter ← parseClusterParams stof params
      .ok (.plain (.seismic (SeismicIndex.new dimension parameter)))
    else if indexType = "disk_seismic".toList then do
      let parameter ← parseClusterParams stof params
      .ok (.plain (.diskSeismic (DiskSeismicIndex.new dimension parameter)))
    else if indexType = "disk_seismic_sq".toList then do
      let q ← parseQuantizerConfig stof params
      let parameter ← parseClusterParams stof params
      let sq ← ScalarQuantizer.make q.1 q.2.1 q.2.2
      .ok (.plain (.diskSeismicSQ sq (DiskSeismicIndex.new dimension parameter)))
    else if indexType = "seismic_sq".toList then do
      let q ← parseQuantizerConfig stof params
      let parameter ← parseClusterParams stof params
      let sq ← ScalarQuantizer.make q.1 q.2.1 q.2.2
      .ok (.plain (.seismicSQ sq (SeismicIndex.new dimension parameter)))
    else if indexType = "idmap".toList then
      if segments.length < 2 then
        .error (.invalidArgument "idmap requires a delegate index type")
      else do
        let delegateIndex ← indexFactory stof dimension (some ([','].intercalate segments.tail))
        .ok (.idMap (IDMapIndex.new delegateIndex))
    else
      .error (.invalidArgument ("Unknown index type: " ++ String.ofList indexType))
termination_by (description.getD []).length
decreasing_by exact length_delegate_lt _hempty

/-! ### Segments -/

/-- An index of a type that is not an id map. -/
def plainFactory (stof : Text → Except Exception F) (dimension : ℕ) (indexType : Text)
    (params : Params) : Except Exception (PlainIndex F) :=
  if indexType = "brutal".toList then .ok (.brutal (BrutalIndex.new dimension))
  else if indexType = "inverted".toList then .ok (.inverted (InvertedIndex.new dimension))
  else if indexType = "seismic".toList then do
    let parameter ← parseClusterParams stof params
    .ok (.seismic (SeismicIndex.new dimension parameter))
  else if indexType = "disk_seismic".toList then do
    let parameter ← parseClusterParams stof params
    .ok (.diskSeismic (DiskSeismicIndex.new dimension parameter))
  else if indexType = "disk_seismic_sq".toList then do
    let q ← parseQuantizerConfig stof params
    let parameter ← parseClusterParams stof params
    let sq ← ScalarQuantizer.make q.1 q.2.1 q.2.2
    .ok (.diskSeismicSQ sq (DiskSeismicIndex.new dimension parameter))
  else if indexType = "seismic_sq".toList then do
    let q ← parseQuantizerConfig stof params
    let parameter ← parseClusterParams stof params
    let sq ← ScalarQuantizer.make q.1 q.2.1 q.2.2
    .ok (.seismicSQ sq (SeismicIndex.new dimension parameter))
  else .error (.invalidArgument ("Unknown index type: " ++ String.ofList indexType))

/-- What a list of segments describes: the segments in front that say so are id maps, the next is
the type, and the one behind it has the parameters. -/
def factoryOf (stof : Text → Except Exception F) (dimension : ℕ) :
    List Text → Except Exception (FactoryIndex F)
  | [] => .error (.invalidArgument "idmap requires a delegate index type")
  | segment :: rest =>
      if segment = [] ∧ rest = [] then
        .error (.invalidArgument "Description cannot be null or empty")
      else if trim segment = "idmap".toList then
        (factoryOf stof dimension rest).map fun delegate => .idMap (IDMapIndex.new delegate)
      else
        (plainFactory stof dimension (trim segment) ((rest.head?).elim [] parseParams)).map .plain

/-- A last step that cannot fail is a map. -/
theorem bind_ok_eq_map {ε α β : Type} (x : Except ε α) (f : α → β) :
    (x >>= fun a => .ok (f a)) = x.map f := by
  cases x <;> rfl

/-- What a sequence returned, made into something else. -/
theorem map_bind {ε α β γ : Type} (x : Except ε α) (f : α → Except ε β) (g : β → γ) :
    (x >>= f).map g = x >>= fun a => (f a).map g := by
  cases x <;> rfl

variable (stof : Text → Except Exception F) (dimension : ℕ)

/-- The factory on a text whose segments are known. -/
theorem indexFactory_of_split {desc segment : Text} {rest : List Text} (hne : desc ≠ [])
    (hsplit : split ',' desc = segment :: rest) :
    indexFactory stof dimension (some desc)
      = if trim segment = "idmap".toList then
          if rest = [] then .error (.invalidArgument "idmap requires a delegate index type")
          else (indexFactory stof dimension (some ([','].intercalate rest))).map
            fun delegate => .idMap (IDMapIndex.new delegate)
        else (plainFactory stof dimension (trim segment)
          ((rest.head?).elim [] parseParams)).map .plain := by
  have hlen : (segment :: rest).length < 2 ↔ rest = [] := by
    rw [List.length_cons, ← List.length_eq_zero_iff]
    omega
  rw [indexFactory, Option.getD_some, dif_neg hne]
  simp only [hsplit, List.headD_cons, List.tail_cons, hlen]
  by_cases hmap : trim segment = "idmap".toList
  · rw [hmap, if_neg (by decide), if_neg (by decide), if_neg (by decide), if_neg (by decide),
      if_neg (by decide), if_neg (by decide), if_pos rfl, if_pos rfl]
    split
    · rfl
    · exact bind_ok_eq_map _ _
  · rw [if_neg hmap, if_neg hmap]
    simp only [plainFactory, apply_ite (Except.map FactoryIndex.plain), map_bind]
    rfl

/-- **What the factory makes of a text** is what its segments describe, an error with its text
included.  Induction on the length: the description of a delegate is shorter. -/
theorem indexFactory_eq_factoryOf (desc : Text) :
    indexFactory stof dimension (some desc) = factoryOf stof dimension (split ',' desc) := by
  induction hlen : desc.length using Nat.strong_induction_on generalizing desc with
  | _ length ih =>
      subst hlen
      by_cases hne : desc = []
      · subst hne
        rw [indexFactory]
        rfl
      cases hsplit : split ',' desc with
      | nil => exact absurd (split_eq_splitOn ',' desc ▸ hsplit) (List.splitOn_ne_nil ',' desc)
      | cons segment rest =>
          have hpieces : ∀ piece ∈ rest, ',' ∉ piece := fun piece hpiece =>
            notMem_of_mem_splitOn (l := desc) (by
              rw [← split_eq_splitOn, hsplit]
              exact List.mem_cons_of_mem _ hpiece)
          have hbare : ¬ (segment = [] ∧ rest = []) := by
            rintro ⟨rfl, rfl⟩
            have hjoin := @List.intercalate_splitOn _ desc _ _ ','
            rw [← split_eq_splitOn, hsplit] at hjoin
            exact hne hjoin.symm
          rw [indexFactory_of_split stof dimension hne hsplit, factoryOf, if_neg hbare]
          split
          · split
            · rename_i hrest
              rw [hrest]
              rfl
            · rename_i hrest
              have hshort := length_delegate_lt hne
              rw [hsplit, List.tail_cons] at hshort
              rw [ih _ hshort _ rfl, split_eq_splitOn, List.splitOn_intercalate ',' hpieces hrest]
          · rfl

/-! ### Writing -/

/-- A text as it may be written: trimmed, with blanks around it. -/
structure Padded where
  left : Text
  text : Text
  right : Text
  trimmed : Trimmed isBlank text
  blank_left : left.all isBlank = true
  blank_right : right.all isBlank = true

namespace Padded

def write (p : Padded) : Text := p.left ++ p.text ++ p.right

@[simp] theorem trim_write (p : Padded) : trim p.write = p.text :=
  trim_pad p.trimmed (List.all_eq_true.mp p.blank_left) (List.all_eq_true.mp p.blank_right)

/-- A delimiter is not a blank. -/
theorem notMem_write {p : Padded} {c : Char} (hc : isBlank c = false) (h : c ∉ p.text) :
    c ∉ p.write := by
  have hside : ∀ side : Text, side.all isBlank = true → c ∉ side := fun side hside hmem =>
    Bool.false_ne_true (hc.symm.trans (List.all_eq_true.mp hside c hmem))
  rw [write, List.mem_append, List.mem_append, not_or, not_or]
  exact ⟨⟨hside _ p.blank_left, h⟩, hside _ p.blank_right⟩

end Padded

/-- None of the delimiters is in the text. -/
def Bare (text : Text) : Prop := ',' ∉ text ∧ '|' ∉ text ∧ '=' ∉ text

/-- What may stand between two `|`: a pair, or a text that is skipped. -/
inductive Token
  | entry (key value : Padded) (hkey : Bare key.text) (hvalue : Bare value.text)
  | other (text : Text) (hcomma : ',' ∉ text) (hbar : '|' ∉ text)
      (hskipped : (split '=' text).length ≠ 2)

namespace Token

def write : Token → Text
  | entry key value _ _ => key.write ++ '=' :: value.write
  | other text _ _ _ => text

def param? : Token → Option (Text × Text)
  | entry key value _ _ => some (key.text, value.text)
  | other _ _ _ _ => none

theorem notMem_write (t : Token) : ',' ∉ t.write ∧ '|' ∉ t.write := by
  cases t with
  | entry key value hkey hvalue =>
      have hside : ∀ c, isBlank c = false → c ≠ '=' → c ∉ key.text → c ∉ value.text →
          c ∉ (entry key value hkey hvalue).write := by
        intro c hblank hne hk hv hmem
        rcases List.mem_append.mp hmem with hmem | hmem
        · exact Padded.notMem_write hblank hk hmem
        · rcases List.mem_cons.mp hmem with hmem | hmem
          · exact hne hmem
          · exact Padded.notMem_write hblank hv hmem
      exact ⟨hside ',' (by decide) (by decide) hkey.1 hvalue.1,
        hside '|' (by decide) (by decide) hkey.2.1 hvalue.2.1⟩
  | other text hcomma hbar hskipped => exact ⟨hcomma, hbar⟩

end Token

/-- **A parameter segment** is parsed to the pairs in it. -/
theorem parseParams_write (tokens : List Token) :
    parseParams (['|'].intercalate (tokens.map Token.write)) = tokens.filterMap Token.param? := by
  have htoken : ∀ t : Token, (match split '=' t.write with
      | [key, value] => some (trim key, trim value)
      | _ => none) = t.param? := by
    intro t
    cases t with
    | entry key value hkey hvalue =>
        have hpieces : split '=' (key.write ++ '=' :: value.write) = [key.write, value.write] := by
          rw [split_eq_splitOn, List.splitOn_append_cons_self_of_not_mem
              (Padded.notMem_write (by decide) hkey.2.2),
            List.splitOn_eq_singleton (Padded.notMem_write (by decide) hvalue.2.2)]
        show (match split '=' (key.write ++ '=' :: value.write) with
          | [key, value] => some (trim key, trim value)
          | _ => none) = some (key.text, value.text)
        rw [hpieces]
        simp only [Padded.trim_write]
    | other text hcomma hbar hskipped =>
        show (match split '=' text with
          | [key, value] => some (trim key, trim value)
          | _ => none) = none
        split
        · rename_i key value hpieces
          rw [hpieces] at hskipped
          exact absurd rfl hskipped
        · rfl
  rcases tokens with _ | ⟨t, tokens⟩
  · rfl
  · have hpieces : split '|' (['|'].intercalate ((t :: tokens).map Token.write))
        = (t :: tokens).map Token.write := by
      rw [split_eq_splitOn]
      refine List.splitOn_intercalate '|' ?_ (List.cons_ne_nil _ _)
      intro piece hpiece
      obtain ⟨t, -, rfl⟩ := List.mem_map.mp hpiece
      exact t.notMem_write.2
    rw [parseParams, hpieces, List.filterMap_map]
    exact List.filterMap_congr fun t _ => htoken t

/-! ### Numbers -/

theorem readDigits_toDigits (negative : Bool) (n : ℕ) :
    readDigits negative (Nat.toDigits 10 n) = some (negative, n) := by
  obtain ⟨c, rest, hdigits, -⟩ := exists_digit_cons n
  have hvalue : Nat.ofDigitChars 10 (Nat.toDigits 10 n) 0 = n := Nat.ofDigitChars_ten_toDigits
  rw [readDigits, takeWhile_digits, hdigits]
  dsimp only
  rw [← hdigits, hvalue]

/-- Digits are neither white space nor signs, so all of them are read. -/
theorem readDecimal_toDigits (n : ℕ) : readDecimal (Nat.toDigits 10 n) = some (false, n) := by
  obtain ⟨c, rest, hdigits, hc⟩ := exists_digit_cons n
  have hspace : ¬ isSpace c = true := by
    intro h
    simp only [isSpace, Bool.or_eq_true, decide_eq_true_eq] at h
    rcases h with ((((rfl | rfl) | rfl) | rfl) | rfl) | rfl <;> exact absurd hc (by decide)
  have hdrop : (Nat.toDigits 10 n).dropWhile isSpace = c :: rest := by
    rw [hdigits, List.dropWhile_cons_of_neg hspace]
  rw [readDecimal, hdrop]
  split
  · rename_i h
    exact absurd ((List.cons.inj h).1 ▸ hc) (by decide)
  · rename_i h
    exact absurd ((List.cons.inj h).1 ▸ hc) (by decide)
  · rw [← hdigits]
    exact readDigits_toDigits false n

theorem readDecimal_neg (n : ℕ) : readDecimal ('-' :: Nat.toDigits 10 n) = some (true, n) := by
  rw [readDecimal, List.dropWhile_cons_of_neg (by decide)]
  exact readDigits_toDigits true n

/-- **An `int` is read back.** -/
theorem stoi_toText {i : ℤ} (hlow : -2 ^ 31 ≤ i) (hhigh : i < 2 ^ 31) : stoi (toText i) = .ok i := by
  cases i with
  | ofNat n =>
      rw [stoi, toText, readDecimal_toDigits]
      exact if_pos ⟨hlow, hhigh⟩
  | negSucc n =>
      rw [stoi, toText, readDecimal_neg]
      have hvalue : -((n + 1 : ℕ) : ℤ) = Int.negSucc n := rfl
      simp only [if_true, hvalue]
      exact if_pos ⟨hlow, hhigh⟩

/-- **A `size_t` is read back.** -/
theorem stoul_toText {n : ℕ} (h : n < 2 ^ 64) : stoul (toText n) = .ok n := by
  show stoul (Nat.toDigits 10 n) = .ok n
  rw [stoul, readDecimal_toDigits]
  exact if_pos h

/-! ### Descriptions -/

/-- The values that are taken for keys that are not there. -/
def defaultEntries : Params :=
  [("lambda".toList, "10".toList), ("beta".toList, "5".toList), ("alpha".toList, "0.5".toList),
    ("inverted_list_batch_size".toList, "1".toList), ("batch_file_output_path".toList, []),
    ("seed".toList, toText kRandomSeed), ("quantizer".toList, "8bit".toList),
    ("vmin".toList, "0.0".toList), ("vmax".toList, "1.0".toList)]

/-- The parameters of an index, each with the text of its value. -/
def SeismicClusterParameters.entries (showFloat : F → Text) (p : SeismicClusterParameters F) :
    Params :=
  [("lambda".toList, toText p.lambda), ("beta".toList, toText p.beta),
    ("alpha".toList, showFloat p.alpha),
    ("inverted_list_batch_size".toList, toText p.batchClustering.batchSize),
    ("batch_file_output_path".toList, p.batchClustering.batchFileOutputPath.toList),
    ("seed".toList, toText p.seed)]

/-- They fit the types they are stored in. -/
structure SeismicClusterParameters.Fits (p : SeismicClusterParameters F) : Prop where
  lambda : -2 ^ 31 ≤ p.lambda ∧ p.lambda < 2 ^ 31
  beta : -2 ^ 31 ≤ p.beta ∧ p.beta < 2 ^ 31
  batchSize : p.batchClustering.batchSize < 2 ^ 64
  seed : -2 ^ 31 ≤ p.seed ∧ p.seed < 2 ^ 31

def QuantizerType.text : QuantizerType → Text
  | .QT_8bit => "8bit".toList
  | .QT_16bit => "16bit".toList

def ScalarQuantizer.entries (showFloat : F → Text) (sq : ScalarQuantizer F) : Params :=
  [("quantizer".toList, sq.qtype.text), ("vmin".toList, showFloat sq.vmin),
    ("vmax".toList, showFloat sq.vmax)]

/-- What the caller of the factory wants. -/
inductive IndexConfig (F : Type) [LT F] [FloatFormat F]
  | brutal
  | inverted
  | seismic (p : SeismicClusterParameters F)
  | seismicSQ (sq : ScalarQuantizer F) (p : SeismicClusterParameters F)
  | diskSeismic (p : SeismicClusterParameters F)
  | diskSeismicSQ (sq : ScalarQuantizer F) (p : SeismicClusterParameters F)

namespace IndexConfig

def name : IndexConfig F → Text
  | brutal => "brutal".toList
  | inverted => "inverted".toList
  | seismic _ => "seismic".toList
  | seismicSQ _ _ => "seismic_sq".toList
  | diskSeismic _ => "disk_seismic".toList
  | diskSeismicSQ _ _ => "disk_seismic_sq".toList

/-- A name has no delimiter, and no name is that of an id map or empty. -/
theorem name_plain (config : IndexConfig F) :
    ',' ∉ config.name ∧ config.name ≠ "idmap".toList ∧ config.name ≠ [] := by
  have hplain : ∀ name ∈ ["brutal".toList, "inverted".toList, "seismic".toList,
      "seismic_sq".toList, "disk_seismic".toList, "disk_seismic_sq".toList],
      ',' ∉ name ∧ name ≠ "idmap".toList ∧ name ≠ [] := by
    decide
  simp only [List.forall_mem_cons] at hplain
  obtain ⟨h₁, h₂, h₃, h₄, h₅, h₆, -⟩ := hplain
  cases config with
  | brutal => exact h₁
  | inverted => exact h₂
  | seismic p => exact h₃
  | seismicSQ sq p => exact h₄
  | diskSeismic p => exact h₅
  | diskSeismicSQ sq p => exact h₆

/-- The new index. -/
def index (dimension : ℕ) : IndexConfig F → PlainIndex F
  | brutal => .brutal (BrutalIndex.new dimension)
  | inverted => .inverted (InvertedIndex.new dimension)
  | seismic p => .seismic (SeismicIndex.new dimension p)
  | seismicSQ sq p => .seismicSQ sq (SeismicIndex.new dimension p)
  | diskSeismic p => .diskSeismic (DiskSeismicIndex.new dimension p)
  | diskSeismicSQ sq p => .diskSeismicSQ sq (DiskSeismicIndex.new dimension p)

def entries (showFloat : F → Text) : IndexConfig F → Params
  | brutal => []
  | inverted => []
  | seismic p => p.entries showFloat
  | seismicSQ sq p => sq.entries showFloat ++ p.entries showFloat
  | diskSeismic p => p.entries showFloat
  | diskSeismicSQ sq p => sq.entries showFloat ++ p.entries showFloat

/-- The floats that are written. -/
def floats : IndexConfig F → List F
  | brutal => []
  | inverted => []
  | seismic p => [p.alpha]
  | seismicSQ sq p => [sq.vmin, sq.vmax, p.alpha]
  | diskSeismic p => [p.alpha]
  | diskSeismicSQ sq p => [sq.vmin, sq.vmax, p.alpha]

def Fits : IndexConfig F → Prop
  | brutal => True
  | inverted => True
  | seismic p => p.Fits
  | seismicSQ _ p => p.Fits
  | diskSeismic p => p.Fits
  | diskSeismicSQ _ p => p.Fits

end IndexConfig

/-- The pairs say so: the first of the key is this one, or none has the key and it is the default. -/
def Says (params : Params) (entry : Text × Text) : Prop :=
  params.find? (fun param => param.1 = entry.1) = some entry ∨
    (∀ param ∈ params, param.1 ≠ entry.1) ∧ entry ∈ defaultEntries

/-- Then the value that is looked up is this one. -/
theorem getParam_of_says {params : Params} {key text default : Text} (h : Says params (key, text))
    (hdefault : (key, default) ∈ defaultEntries) : getParam params key default = text := by
  have hkeys : (defaultEntries.map Prod.fst).Nodup := by decide
  rw [getParam]
  rcases h with hfirst | ⟨hnone, hentry⟩
  · rw [hfirst]
  · have hfind : params.find? (fun param => param.1 = key) = none := by
      rw [List.find?_eq_none]
      intro param hparam
      simpa using hnone param hparam
    rw [hfind]
    exact (Prod.ext_iff.mp (List.inj_on_of_nodup_map hkeys hdefault hentry rfl)).2

variable {stof dimension} {showFloat : F → Text} {params : Params}

omit [LinearOrder F] [FloatFormat F] in
/-- **The cluster parameters** that the pairs say are parsed. -/
theorem parseClusterParams_of_says {p : SeismicClusterParameters F} (hfits : p.Fits)
    (halpha : stof (showFloat p.alpha) = .ok p.alpha)
    (h : ∀ entry ∈ p.entries showFloat, Says params entry) :
    parseClusterParams stof params = .ok p := by
  simp only [SeismicClusterParameters.entries, List.forall_mem_cons] at h
  obtain ⟨hlambda, hbeta, hsaid, hsize, hpath, hseed, -⟩ := h
  rw [parseClusterParams, getParam_of_says hlambda (by decide), getParam_of_says hbeta (by decide),
    getParam_of_says hsaid (by decide), getParam_of_says hsize (by decide),
    getParam_of_says hpath (by decide), getParam_of_says hseed (by decide), halpha,
    stoi_toText hfits.lambda.1 hfits.lambda.2, stoi_toText hfits.beta.1 hfits.beta.2,
    stoul_toText hfits.batchSize, stoi_toText hfits.seed.1 hfits.seed.2, String.ofList_toList]
  rfl

/-- **The quantizer** that the pairs say is parsed, and its constructor takes it. -/
theorem parseQuantizerConfig_of_says {sq : ScalarQuantizer F}
    (hvmin : stof (showFloat sq.vmin) = .ok sq.vmin) (hvmax : stof (showFloat sq.vmax) = .ok sq.vmax)
    (h : ∀ entry ∈ sq.entries showFloat, Says params entry) :
    parseQuantizerConfig stof params = .ok (sq.qtype, sq.vmin, sq.vmax) := by
  simp only [ScalarQuantizer.entries, List.forall_mem_cons] at h
  obtain ⟨htype, hmin, hmax, -⟩ := h
  rw [parseQuantizerConfig, getParam_of_says htype (by decide), getParam_of_says hmin (by decide),
    getParam_of_says hmax (by decide), hvmin, hvmax]
  cases sq.qtype <;> rfl

theorem ScalarQuantizer.make_self (sq : ScalarQuantizer F) :
    ScalarQuantizer.make sq.qtype sq.vmin sq.vmax = .ok sq := by
  rw [ScalarQuantizer.make, dif_pos sq.finite, dif_pos sq.range, dif_pos sq.stored]

/-- An index that is not an id map is made as it is described. -/
theorem plainFactory_of_says {config : IndexConfig F} (hfits : config.Fits)
    (hfloats : ∀ x ∈ config.floats, stof (showFloat x) = .ok x)
    (h : ∀ entry ∈ config.entries showFloat, Says params entry) :
    plainFactory stof dimension config.name params = .ok (config.index dimension) := by
  cases config with
  | brutal => exact if_pos rfl
  | inverted =>
      show plainFactory stof dimension "inverted".toList params = _
      rw [plainFactory, if_neg (by decide), if_pos rfl]
      rfl
  | seismic p =>
      have hp := parseClusterParams_of_says hfits (hfloats _ (List.mem_singleton_self _)) h
      show plainFactory stof dimension "seismic".toList params = _
      rw [plainFactory, if_neg (by decide), if_neg (by decide), if_pos rfl, hp]
      rfl
  | diskSeismic p =>
      have hp := parseClusterParams_of_says hfits (hfloats _ (List.mem_singleton_self _)) h
      show plainFactory stof dimension "disk_seismic".toList params = _
      rw [plainFactory, if_neg (by decide), if_neg (by decide), if_neg (by decide), if_pos rfl, hp]
      rfl
  | diskSeismicSQ sq p =>
      simp only [IndexConfig.floats, List.forall_mem_cons] at hfloats
      obtain ⟨hvmin, hvmax, halpha, -⟩ := hfloats
      obtain ⟨hq, hp⟩ := List.forall_mem_append.mp h
      show plainFactory stof dimension "disk_seismic_sq".toList params = _
      rw [plainFactory, if_neg (by decide), if_neg (by decide), if_neg (by decide),
        if_neg (by decide), if_pos rfl, parseQuantizerConfig_of_says hvmin hvmax hq,
        parseClusterParams_of_says hfits halpha hp]
      show (ScalarQuantizer.make sq.qtype sq.vmin sq.vmax >>= _) = _
      rw [sq.make_self]
      rfl
  | seismicSQ sq p =>
      simp only [IndexConfig.floats, List.forall_mem_cons] at hfloats
      obtain ⟨hvmin, hvmax, halpha, -⟩ := hfloats
      obtain ⟨hq, hp⟩ := List.forall_mem_append.mp h
      show plainFactory stof dimension "seismic_sq".toList params = _
      rw [plainFactory, if_neg (by decide), if_neg (by decide), if_neg (by decide),
        if_neg (by decide), if_neg (by decide), if_pos rfl,
        parseQuantizerConfig_of_says hvmin hvmax hq, parseClusterParams_of_says hfits halpha hp]
      show (ScalarQuantizer.make sq.qtype sq.vmin sq.vmax >>= _) = _
      rw [sq.make_self]
      rfl

/-- An index under id maps. -/
def nested (x : PlainIndex F) : ℕ → FactoryIndex F
  | 0 => .plain x
  | maps + 1 => .idMap (IDMapIndex.new (nested x maps))

/-- What a description has behind the type: nothing, or a segment of tokens and perhaps more. -/
inductive Behind
  | nothing
  | parameters (tokens : List Token) (more : List Text)

namespace Behind

def write : Behind → List Text
  | nothing => []
  | parameters tokens more => ['|'].intercalate (tokens.map Token.write) :: more

def pairs : Behind → Params
  | nothing => []
  | parameters tokens _ => tokens.filterMap Token.param?

/-- The segments that are not read. -/
def more : Behind → List Text
  | nothing => []
  | parameters _ more => more

/-- The pairs are those that the factory reads. -/
theorem parseParams_head (behind : Behind) :
    (behind.write.head?).elim [] parseParams = behind.pairs := by
  cases behind with
  | nothing => rfl
  | parameters tokens more => exact parseParams_write tokens

theorem notMem_write {behind : Behind} (hmore : ∀ segment ∈ behind.more, ',' ∉ segment) :
    ∀ segment ∈ behind.write, ',' ∉ segment := by
  cases behind with
  | nothing => exact fun segment hsegment => absurd hsegment List.not_mem_nil
  | parameters tokens more =>
      refine List.forall_mem_cons.mpr ⟨fun hmem => ?_, hmore⟩
      rcases mem_intercalate hmem with hbar | ⟨piece, hpiece, hmem⟩
      · exact absurd hbar (by decide)
      · obtain ⟨t, -, rfl⟩ := List.mem_map.mp hpiece
        exact t.notMem_write.1 hmem

end Behind

/-- **A description is understood.**  With or without parameters, these written in any order, with
blanks, pairs of other keys, tokens that are no pairs and more segments behind, defaults left out
or not, under any number of id maps, it makes the index that was wanted. -/
theorem indexFactory_described (stof : Text → Except Exception F) (showFloat : F → Text)
    (dimension : ℕ) (config : IndexConfig F) (hfits : config.Fits)
    (hfloats : ∀ x ∈ config.floats, stof (showFloat x) = .ok x) (maps : List Padded)
    (hmaps : ∀ segment ∈ maps, segment.text = "idmap".toList) (kind : Padded)
    (hkind : kind.text = config.name) (behind : Behind)
    (h : ∀ entry ∈ config.entries showFloat, Says behind.pairs entry)
    (hmore : ∀ segment ∈ behind.more, ',' ∉ segment) :
    indexFactory stof dimension
        (some ([','].intercalate (maps.map Padded.write ++ kind.write :: behind.write)))
      = .ok (nested (config.index dimension) maps.length) := by
  have hname := config.name_plain
  have hsegments : ∀ segment ∈ maps.map Padded.write ++ kind.write :: behind.write,
      ',' ∉ segment := by
    intro segment hsegment
    rcases List.mem_append.mp hsegment with hsegment | hsegment
    · obtain ⟨p, hp, rfl⟩ := List.mem_map.mp hsegment
      refine Padded.notMem_write (by decide) ?_
      rw [hmaps p hp]
      decide
    · rcases List.mem_cons.mp hsegment with rfl | hsegment
      · exact Padded.notMem_write (by decide) (hkind ▸ hname.1)
      · exact Behind.notMem_write hmore segment hsegment
  -- an empty text names no type
  have hwrite : kind.write ≠ [] := by
    intro hnil
    have htrim := kind.trim_write
    rw [hnil, hkind] at htrim
    exact hname.2.2 htrim.symm
  rw [indexFactory_eq_factoryOf, split_eq_splitOn, List.splitOn_intercalate ',' hsegments
    (List.append_ne_nil_of_right_ne_nil _ (List.cons_ne_nil _ _))]
  clear hsegments
  induction maps with
  | nil =>
      rw [List.map_nil, List.nil_append, factoryOf, if_neg (fun h => hwrite h.1),
        Padded.trim_write, hkind, if_neg hname.2.1, behind.parseParams_head,
        plainFactory_of_says hfits hfloats h]
      rfl
  | cons p maps ih =>
      obtain ⟨hp, hmaps⟩ := List.forall_mem_cons.mp hmaps
      rw [List.map_cons, List.cons_append, factoryOf, if_neg (fun h =>
          List.append_ne_nil_of_right_ne_nil _ (List.cons_ne_nil _ _) h.2),
        Padded.trim_write, hp, if_pos rfl, ih hmaps]
      rfl

/-- An id map over an index of one parameter, with blanks and a token that is no pair. -/
theorem indexFactory_described_one_parameter :
    indexFactory stoi 7 (some "idmap, seismic,lambda = 20|quick|alpha=1,".toList)
      = .ok (nested (.seismic (SeismicIndex.new 7 ⟨20, 5, (1 : ℤ), ⟨1, ""⟩, -1⟩)) 1) :=
  indexFactory_described stoi toText 7 (.seismic ⟨20, 5, 1, ⟨1, ""⟩, -1⟩)
    ⟨by decide, by decide, by decide, by decide⟩ (by decide)
    [⟨[], "idmap".toList, [], ⟨by decide, by decide⟩, by decide, by decide⟩]
    (List.forall_mem_singleton.mpr rfl)
    ⟨[' '], "seismic".toList, [], ⟨by decide, by decide⟩, by decide, by decide⟩ rfl
    (.parameters [.entry ⟨[], "lambda".toList, [' '], ⟨by decide, by decide⟩, by decide, by decide⟩
        ⟨[' '], "20".toList, [], ⟨by decide, by decide⟩, by decide, by decide⟩
        ⟨by decide, by decide, by decide⟩ ⟨by decide, by decide, by decide⟩,
      .other "quick".toList (by decide) (by decide) (by decide),
      .entry ⟨[], "alpha".toList, [], ⟨by decide, by decide⟩, by decide, by decide⟩
        ⟨[], "1".toList, [], ⟨by decide, by decide⟩, by decide, by decide⟩
        ⟨by decide, by decide, by decide⟩ ⟨by decide, by decide, by decide⟩] [[]])
    (by
      simp only [IndexConfig.entries, SeismicClusterParameters.entries, List.forall_mem_cons]
      exact ⟨.inl rfl, .inr ⟨by decide, by decide⟩, .inl rfl, .inr ⟨by decide, by decide⟩,
        .inr ⟨by decide, by decide⟩, .inr ⟨by decide, by decide⟩, fun _ h => by cases h⟩)
    (by decide)

end Factory

end Nsparse
