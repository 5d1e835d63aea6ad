import Horse.Codec.Raises
import Horse.Lib.JsonTopology

/-!
# Topology files

What `parse_topology` does with a file that lists datapaths and links.  The loops follow the
file to the first entry that is rejected; up to there, everything is stored, and the run stays
inside the arrays exactly if that much fits them.
-/

namespace Horse.Lib

open Horse.Codec

/-! ## Topology files -/

/-- A number of a file, which may be quoted. -/
structure FileNumber where
  place : JsonPlace
  text : List Char
  quoted : Bool
  deriving DecidableEq, Repr

/-- The members of one link. -/
structure FileLink where
  place : JsonPlace
  members : List (JsonKey × FileNumber)
  deriving DecidableEq, Repr

/-- The second member of a file and what follows it. -/
structure LinksMember where
  key : JsonKey
  place : JsonPlace
  links : List FileLink
  more : List (JsonKey × JsonValue)

/-- A file that lists datapaths and, if it has a second member, links.  Any names, any numbers
and any number of members may be written in it. -/
structure TopologyFile where
  place : JsonPlace
  key : JsonKey
  dpsPlace : JsonPlace
  dps : List FileNumber
  linksMember : Option LinksMember

namespace FileNumber

/-- The value that is read for a number. -/
def value (n : FileNumber) : JsonValue :=
  if n.quoted then .string n.place n.text else .number n.place n.text

/-- The number is accepted where numbers up to a maximum are. -/
def Accepted (n : FileNumber) (maximum : Nat) : Prop :=
  ∃ number, parseNumber n.text maximum = .ok number

instance (n : FileNumber) (maximum : Nat) : Decidable (n.Accepted maximum) :=
  match parsed : parseNumber n.text maximum with
  | .ok number => .isTrue ⟨number, parsed⟩
  | .error _ => .isFalse fun ⟨_, accepted⟩ => nomatch parsed.symm.trans accepted

/-- The datapath identifier that is written, if it is one. -/
def dpid (n : FileNumber) : BitVec 64 :=
  match parseNumber n.text (2 ^ 64 - 1) with
  | .ok number => BitVec.ofNat 64 number
  | .error _ => 0

end FileNumber

/-- The value that is read for a link. -/
def FileLink.value (link : FileLink) : JsonValue :=
  .object link.place (link.members.map fun member => (member.1, member.2.value))

namespace TopologyFile

/-- What `json_parse_ex` returns for a file. -/
def tree (file : TopologyFile) : JsonValue :=
  .object file.place
    ((file.key, .array file.dpsPlace (file.dps.map FileNumber.value)) ::
      match file.linksMember with
      | none => []
      | some member =>
        (member.key, .array member.place (member.links.map FileLink.value)) :: member.more)

/-- The number of links in the file. -/
def linkCount (file : TopologyFile) : Nat :=
  match file.linksMember with
  | none => 0
  | some member => member.links.length

end TopologyFile

/-- A member of a link is accepted, for these datapaths. -/
def LinkField.Accepts (dpids : List (BitVec 64)) (field : LinkField)
    (member : JsonKey × FileNumber) : Prop :=
  member.1.name = field.keyword ∧ member.2.Accepted field.maximum ∧
    (field.isSwitch = true → member.2.dpid ∈ dpids)

instance (dpids : List (BitVec 64)) (field : LinkField) (member : JsonKey × FileNumber) :
    Decidable (field.Accepts dpids member) :=
  inferInstanceAs (Decidable (_ ∧ _ ∧ (_ → _)))

/-- All members of a link are there and are accepted. -/
def MembersAccepted (dpids : List (BitVec 64)) :
    List LinkField → List (JsonKey × FileNumber) → Prop
  | [], _ => True
  | _ :: _, [] => False
  | field :: fields, member :: members =>
    field.Accepts dpids member ∧ MembersAccepted dpids fields members

instance decidableMembersAccepted (dpids : List (BitVec 64)) :
    (fields : List LinkField) → (members : List (JsonKey × FileNumber)) →
      Decidable (MembersAccepted dpids fields members)
  | [], _ => .isTrue trivial
  | _ :: _, [] => .isFalse id
  | _ :: fields, _ :: members =>
    have := decidableMembersAccepted dpids fields members
    inferInstanceAs (Decidable (_ ∧ _))

/-- The first member of a link is a number with the right name, so that it is stored. -/
def LinkEntered : List (JsonKey × FileNumber) → Prop
  | [] => False
  | member :: _ =>
    member.1.name = LinkField.switchX.keyword ∧ member.2.Accepted LinkField.switchX.maximum

instance : (members : List (JsonKey × FileNumber)) → Decidable (LinkEntered members)
  | [] => .isFalse id
  | _ :: _ => inferInstanceAs (Decidable (_ ∧ _))

/-- How many datapaths stand before the first that is not a number. -/
def enteredDps : List FileNumber → Nat
  | [] => 0
  | n :: rest => if n.Accepted (2 ^ 64 - 1) then enteredDps rest + 1 else 0

/-- How many links are written to, up to the first that is not accepted. -/
def enteredLinks (dpids : List (BitVec 64)) : List FileLink → Nat
  | [] => 0
  | link :: rest =>
    if MembersAccepted dpids LinkField.all link.members then enteredLinks dpids rest + 1
    else if LinkEntered link.members then 1 else 0

/-- The parser writes inside the arrays, takes no payload for another, and counts what is in
the file. -/
def FillsAsGiven (file : TopologyFile) (ptopo : ParsedTopology) : Prop :=
  parseTopology (.ok file.tree) ptopo ≠ .error .writesOutside ∧
    parseTopology (.ok file.tree) ptopo ≠ .error .misreads ∧
      ∀ after, parseTopology (.ok file.tree) ptopo = .ok after →
        after.ndps = file.dps.length ∧ after.nlinks = file.linkCount

/-- The links fit their array; without links, there were none before. -/
def LinksFit (file : TopologyFile) (ptopo : ParsedTopology) : Prop :=
  match file.linksMember with
  | none => ptopo.nlinks = 0
  | some member =>
    member.key.name = linksKey →
      enteredLinks (file.dps.map FileNumber.dpid) member.links ≤ linkLimit

/-- What is read before the file is rejected, if it is, fits the arrays. -/
def FileFits (file : TopologyFile) (ptopo : ParsedTopology) : Prop :=
  file.key.name = dpsKey →
    enteredDps file.dps ≤ dpLimit ∧
      ((∀ n ∈ file.dps, n.Accepted (2 ^ 64 - 1)) → LinksFit file ptopo)

/-- The links name datapaths that are listed. -/
def NamesListed (ptopo : ParsedTopology) : Prop :=
  ∀ link ∈ ptopo.linkList, link.switchX ∈ ptopo.dpList ∧ link.switchY ∈ ptopo.dpList

/-! ## Single steps -/

/-- The failures with which the parser leaves its arrays or takes a payload for another. -/
def Corrupts (failure : ParseFailure) : Prop :=
  failure = .writesOutside ∨ failure = .misreads

theorem parseNumber_ends (n : FileNumber) (maximum : Nat) :
    Ends Corrupts True (n.Accepted maximum) (fun number => parseNumber n.text maximum = .ok number)
      (parseNumber n.text maximum) := by
  cases parsed : parseNumber n.text maximum with
  | ok number => exact ⟨trivial, ⟨number, parsed⟩, rfl⟩
  | error failure =>
    refine ⟨?_, fun ⟨_, number, accepted⟩ => nomatch parsed.symm.trans accepted⟩
    simp only [parseNumber] at parsed
    split at parsed <;> cases parsed
    simp [Corrupts]

theorem validateKeyword_ends (expected : List Char) (key : JsonKey) :
    Ends Corrupts True (key.name = expected) (fun _ => True) (validateKeyword expected key) := by
  unfold validateKeyword
  split
  · rename_i named
    exact ⟨trivial, named, trivial⟩
  · rename_i other
    exact ⟨by simp [Corrupts, jsonError], fun both => other both.2⟩

@[simp]
theorem numberText_value_bind {α : Type} (n : FileNumber)
    (next : List Char → Except ParseFailure α) : (numberText n.value >>= next) = next n.text := by
  unfold FileNumber.value
  split <;> rfl

theorem FileNumber.dpid_eq {n : FileNumber} {number : Nat}
    (parsed : parseNumber n.text (2 ^ 64 - 1) = .ok number) : n.dpid = BitVec.ofNat 64 number := by
  rw [dpid, parsed]

variable {safe accepted : Prop}

theorem store_ends {room : Prop} [Decidable room] {stored : ParsedTopology}
    {post : ParsedTopology → Prop} {next : ParsedTopology → Except ParseFailure ParsedTopology}
    (rest : room → Ends Corrupts safe accepted post (next stored)) :
    Ends Corrupts (room ∧ safe) accepted post
      ((if room then .ok stored else .error .writesOutside) >>= next) := by
  split
  · rename_i inside
    exact (rest inside).imp (and_iff_right inside).symm (fun _ => Iff.rfl) fun _ => id
  · rename_i full
    exact ⟨iff_of_true (.inl rfl) fun both => full both.1, fun both => full both.1.1⟩

/-! ## The loop over the datapaths -/

/-- The slots before the one that is written keep what they had. -/
theorem range_map_update (dps : Nat → BitVec 64) (i : Nat) (dpid : BitVec 64) :
    (List.range (i + 1)).map (Function.update dps i dpid) = (List.range i).map dps ++ [dpid] := by
  have kept : (List.range i).map (Function.update dps i dpid) = (List.range i).map dps := by
    apply List.map_congr_left
    intro j isBefore
    exact Function.update_of_ne (List.mem_range.mp isBefore).ne _ _
  rw [List.range_succ, List.map_append, kept, List.map_singleton, Function.update_self]

theorem parseDps_ends {i : Nat} {dps : List FileNumber} {ptopo : ParsedTopology}
    (room : i ≤ dpLimit) :
    Ends Corrupts (i + enteredDps dps ≤ dpLimit) (∀ n ∈ dps, n.Accepted (2 ^ 64 - 1))
      (fun after => (List.range (i + dps.length)).map after.dps =
        (List.range i).map ptopo.dps ++ dps.map FileNumber.dpid ∧ after.nlinks = ptopo.nlinks)
      (parseDps i (dps.map FileNumber.value) ptopo) := by
  induction dps generalizing i ptopo with
  | nil => exact ⟨room, nofun, by simp, rfl⟩
  | cons n rest ih =>
    simp only [List.map_cons, parseDps, numberText_value_bind, ParsedTopology.storeDp]
    refine ((parseNumber_ends n _).bind fun number _ _ parsed =>
      store_ends fun hasRoom => (ih hasRoom).imp Iff.rfl (fun _ => Iff.rfl) ?_).imp ?_ ?_
        fun _ => id
    · rintro after ⟨listed, nlinks⟩
      rw [range_map_update, ← FileNumber.dpid_eq parsed] at listed
      rw [List.length_cons, ← Nat.succ_add_eq_add_succ, listed]
      exact ⟨by simp, nlinks⟩
    · rw [enteredDps]
      by_cases accepted : n.Accepted (2 ^ 64 - 1)
      · simp only [accepted, if_true, true_and, forall_const]
        omega
      · simp only [accepted, if_false, false_implies, true_and, true_iff]
        omega
    · exact fun _ => by simp

/-- The datapaths in use are the first ones, sorted. -/
theorem dpList_sortDps {ptopo : ParsedTopology} {count : Nat} :
    ({ ptopo.sortDps count with ndps := count } : ParsedTopology).dpList =
      ((List.range count).map ptopo.dps).insertionSort (· ≤ ·) := by
  apply List.ext_getElem
  · simp [ParsedTopology.dpList, List.length_insertionSort]
  · intro i inside sortedInside
    simp [ParsedTopology.dpList, ParsedTopology.sortDps, List.getElem?_eq_getElem sortedInside]

theorem parseDpsMember_ends (key : JsonKey) (place : JsonPlace) (dps : List FileNumber)
    (ptopo : ParsedTopology) :
    Ends Corrupts (key.name = dpsKey → enteredDps dps ≤ dpLimit)
      (key.name = dpsKey ∧ ∀ n ∈ dps, n.Accepted (2 ^ 64 - 1))
      (fun after => after.dpList = (dps.map FileNumber.dpid).insertionSort (· ≤ ·) ∧
        after.ndps = dps.length ∧ after.nlinks = ptopo.nlinks)
      (parseDpsMember key (.array place (dps.map FileNumber.value)) ptopo) := by
  refine ((validateKeyword_ends dpsKey key).bind fun _ _ _ _ =>
    (@parseDps_ends 0 dps ptopo (Nat.zero_le _)).bind fun after _ _ ⟨listed, nlinks⟩ =>
      Ends.ok ⟨?_, List.length_map _, nlinks⟩).imp ?_ ?_ fun _ => id
  · simp
  · exact fun _ => by simp
  · rw [Nat.zero_add] at listed
    change ParsedTopology.dpList { after.sortDps _ with ndps := _ } = _
    rw [List.length_map, dpList_sortDps, listed]
    rfl

/-! ## The members of a link -/

/-- The members of a link as they stand in the tree. -/
def memberValues (members : List (JsonKey × FileNumber)) : List (JsonKey × JsonValue) :=
  members.map fun member => (member.1, member.2.value)

/-- The datapath that a link has at one of its switches. -/
def LinkField.switchOf (link : LinkSpec) : LinkField → BitVec 64
  | switchY => link.switchY
  | _ => link.switchX

/-- Every switch of a link is still to be read, or is listed. -/
def SwitchesListed (ptopo : ParsedTopology) (i : Nat) (fields : List LinkField) : Prop :=
  ∀ field : LinkField, field.isSwitch = true →
    field ∈ fields ∨ field.switchOf (ptopo.links i) ∈ ptopo.dpList

/-- Nothing but links from a position on is written. -/
structure OnlyLinks (i : Nat) (ptopo after : ParsedTopology) : Prop where
  dps : after.dps = ptopo.dps
  ndps : after.ndps = ptopo.ndps
  nlinks : after.nlinks = ptopo.nlinks
  earlier : ∀ j < i, after.links j = ptopo.links j

section Links

variable {i : Nat} {field : LinkField} {fields : List LinkField} {member : JsonKey × FileNumber}
  {members : List (JsonKey × FileNumber)} {links : List FileLink} {ptopo after : ParsedTopology}

theorem OnlyLinks.refl (i : Nat) (ptopo : ParsedTopology) : OnlyLinks i ptopo ptopo :=
  ⟨rfl, rfl, rfl, fun _ _ => rfl⟩

theorem OnlyLinks.setLink (ptopo : ParsedTopology) (i : Nat) (stored : LinkSpec) :
    OnlyLinks i ptopo (ptopo.setLink i stored) :=
  ⟨rfl, rfl, rfl, fun _ before => Function.update_of_ne before.ne _ _⟩

theorem OnlyLinks.trans {j : Nat} {middle : ParsedTopology} (first : OnlyLinks i ptopo middle)
    (second : OnlyLinks j middle after) (later : i ≤ j) : OnlyLinks i ptopo after :=
  ⟨second.dps.trans first.dps, second.ndps.trans first.ndps, second.nlinks.trans first.nlinks,
    fun k before => (second.earlier k (before.trans_le later)).trans (first.earlier k before)⟩

theorem OnlyLinks.dpList (only : OnlyLinks i ptopo after) : after.dpList = ptopo.dpList := by
  rw [ParsedTopology.dpList, ParsedTopology.dpList, only.dps, only.ndps]

variable {number : Nat} {dpids : List (BitVec 64)}

/-- The datapath that a switch names, as it was parsed. -/
theorem LinkField.ofNat_eq_dpid (isSwitch : field.isSwitch = true)
    (parsed : parseNumber member.2.text field.maximum = .ok number) :
    BitVec.ofNat 64 number = member.2.dpid := by
  cases field with
  | switchX | switchY => exact (FileNumber.dpid_eq parsed).symm
  | portX | portY | delay | bw => cases isSwitch

/-- A switch that is read is listed, and the other one stays as it was. -/
theorem SwitchesListed.assign (accepted : field.Accepts ptopo.dpList member)
    (parsed : parseNumber member.2.text field.maximum = .ok number)
    (listed : SwitchesListed ptopo i (field :: fields)) :
    SwitchesListed (ptopo.setLink i (field.assign number (ptopo.links i))) i fields := by
  have stored : (ptopo.setLink i (field.assign number (ptopo.links i))).links i =
      field.assign number (ptopo.links i) := Function.update_self ..
  intro switch isSwitch
  rw [stored]
  by_cases same : switch = field
  · subst same
    have isListed := accepted.2.2 isSwitch
    rw [← LinkField.ofNat_eq_dpid isSwitch parsed] at isListed
    cases switch with
    | switchX | switchY => exact .inr isListed
    | portX | portY | delay | bw => cases isSwitch
  · refine (listed switch isSwitch).imp (fun isNext => ?_) fun isListed => ?_
    · exact (List.mem_cons.mp isNext).resolve_left same
    · have kept : switch.switchOf (field.assign number (ptopo.links i)) =
          switch.switchOf (ptopo.links i) := by
        cases switch with
        | switchX | switchY => cases field <;> first | rfl | exact absurd rfl same
        | portX | portY | delay | bw => cases isSwitch
      rw [kept]
      exact isListed

/-- The first of these members is a number with the right name. -/
def FirstStored : List LinkField → List (JsonKey × FileNumber) → Prop
  | field :: _, member :: _ => member.1.name = field.keyword ∧ member.2.Accepted field.maximum
  | _, _ => False

/-- A switch that was stored is looked up. -/
theorem lookup_ends {text : List Char} {place : JsonPlace} {post : ParsedTopology → Prop}
    {next : Except ParseFailure ParsedTopology}
    (parsed : parseNumber member.2.text field.maximum = .ok number)
    (sameDps : after.dpList = ptopo.dpList)
    (rest : (field.isSwitch = true → member.2.dpid ∈ ptopo.dpList) →
      Ends Corrupts safe accepted post next) :
    Ends Corrupts ((field.isSwitch = true → member.2.dpid ∈ ptopo.dpList) → safe)
      ((field.isSwitch = true → member.2.dpid ∈ ptopo.dpList) ∧ accepted) post
      (if field.isSwitch ∧ validateLinkDp (BitVec.ofNat 64 number) after = false then
        .error (jsonError "Datapath" text place " does not exist.\n") else next) := by
  have found (isSwitch : field.isSwitch = true) :
      validateLinkDp (BitVec.ofNat 64 number) after = true ↔ member.2.dpid ∈ ptopo.dpList := by
    rw [LinkField.ofNat_eq_dpid isSwitch parsed, validateLinkDp, List.contains_iff_mem, sameDps]
  split
  · rename_i missing
    have absent : ¬(field.isSwitch = true → member.2.dpid ∈ ptopo.dpList) := by
      intro listed
      rw [(found missing.1).mpr (listed missing.1)] at missing
      exact nomatch missing.2
    refine ⟨iff_of_false (by simp [Corrupts, jsonError]) ?_, fun both => absent both.2.1⟩
    exact fun refused => refused fun listed => absurd listed absent
  · rename_i present
    have listed (isSwitch : field.isSwitch = true) : member.2.dpid ∈ ptopo.dpList := by
      rw [← found isSwitch]
      exact Bool.not_eq_false _ ▸ fun absent => present ⟨isSwitch, absent⟩
    refine (rest listed).imp ?_ (fun _ => (and_iff_right listed).symm) fun _ => id
    exact ⟨fun isSafe _ => isSafe, fun all => all listed⟩

theorem parseFields_ends (listed : SwitchesListed ptopo i fields) :
    Ends Corrupts (FirstStored fields members → i < linkLimit)
      (MembersAccepted ptopo.dpList fields members)
      (fun after => OnlyLinks i ptopo after ∧ SwitchesListed after i [])
      (parseFields i fields (memberValues members) ptopo) := by
  induction fields generalizing members ptopo with
  | nil =>
    rw [parseFields]
    exact ⟨nofun, trivial, .refl i ptopo, listed⟩
  | cons field fields ih =>
    cases members with
    | nil => exact ⟨iff_of_false (by simp [Corrupts]) fun all => all nofun, fun both => both.2⟩
    | cons member members =>
      simp only [memberValues, List.map_cons, parseFields, numberText_value_bind,
        ParsedTopology.storeLink]
      have later {number : Nat} (accepted : field.Accepts ptopo.dpList member)
          (parsed : parseNumber member.2.text field.maximum = .ok number) :
          Ends Corrupts (FirstStored fields members → i < linkLimit)
            (MembersAccepted ptopo.dpList fields members)
            (fun after => OnlyLinks i ptopo after ∧ SwitchesListed after i [])
            (parseFields i fields (memberValues members)
              (ptopo.setLink i (field.assign number (ptopo.links i)))) :=
        (ih (listed.assign accepted parsed)).imp Iff.rfl (fun _ => Iff.rfl)
          fun _ kept => ⟨(OnlyLinks.setLink ptopo i _).trans kept.1 le_rfl, kept.2⟩
      refine ((validateKeyword_ends _ member.1).bind fun _ _ named _ =>
        (parseNumber_ends member.2 _).bind fun _ _ isNumber parsed => store_ends fun _ =>
          lookup_ends parsed (OnlyLinks.setLink ptopo i _).dpList fun isListed =>
            later ⟨named, isNumber, isListed⟩ parsed).imp ?_ ?_ fun _ => id
      · simp only [FirstStored]
        tauto
      · intro _
        simp only [MembersAccepted, LinkField.Accepts, and_assoc]

/-! ## The loop over the links -/

theorem linkEntered_iff : LinkEntered members ↔ FirstStored LinkField.all members := by
  cases members <;> rfl

theorem MembersAccepted.entered (accepted : MembersAccepted dpids LinkField.all members) :
    LinkEntered members := by
  cases members with
  | nil => exact accepted
  | cons member members => exact ⟨accepted.1.1, accepted.1.2.1⟩

/-- What the loop over the links needs of the first one and of the others. -/
theorem enteredLinks_le_iff {link : FileLink} (room : i ≤ linkLimit) :
    i + enteredLinks dpids (link :: links) ≤ linkLimit ↔
      (LinkEntered link.members → i < linkLimit) ∧
        (MembersAccepted dpids LinkField.all link.members →
          i + 1 + enteredLinks dpids links ≤ linkLimit) := by
  rw [enteredLinks]
  by_cases accepted : MembersAccepted dpids LinkField.all link.members
  · simp only [accepted, accepted.entered, if_true, forall_const]
    omega
  · by_cases entered : LinkEntered link.members
    · simp only [accepted, entered, if_true, if_false, forall_const, false_implies, and_true]
      omega
    · simpa only [accepted, entered, if_false, false_implies, and_true, iff_true, Nat.add_zero]
        using room

theorem parseLinks_ends (room : i ≤ linkLimit) :
    Ends Corrupts (i + enteredLinks ptopo.dpList links ≤ linkLimit)
      (∀ link ∈ links, MembersAccepted ptopo.dpList LinkField.all link.members)
      (fun after => OnlyLinks i ptopo after ∧
        ∀ j, i ≤ j → j < i + links.length → SwitchesListed after j [])
      (parseLinks i (links.map FileLink.value) ptopo) := by
  induction links generalizing i ptopo with
  | nil => exact ⟨room, nofun, .refl i ptopo, fun j after before => absurd before after.not_gt⟩
  | cons link links ih =>
    have all : SwitchesListed ptopo i LinkField.all := by
      intro field _
      cases field <;> exact .inl (by decide)
    have first := @parseFields_ends i _ link.members _ all
    rw [← linkEntered_iff] at first
    rw [List.forall_mem_cons, enteredLinks_le_iff room]
    refine first.bind fun middle isSafe accepted ⟨only, listed⟩ => ?_
    have later := @ih (i + 1) middle (isSafe accepted.entered)
    rw [only.dpList] at later
    refine later.imp Iff.rfl (fun _ => Iff.rfl) ?_
    rintro after ⟨onlyLater, listedLater⟩
    refine ⟨only.trans onlyLater (Nat.le_succ i), ?_⟩
    intro j notBefore inside
    rw [List.length_cons] at inside
    by_cases isThis : j = i
    · subst isThis
      intro field isSwitch
      rw [onlyLater.earlier j (Nat.lt_succ_self j), onlyLater.dpList]
      exact listed field isSwitch
    · exact listedLater j (by omega) (by omega)

theorem parseLinksMember_ends (key : JsonKey) (place : JsonPlace) :
    Ends Corrupts (key.name = linksKey → enteredLinks ptopo.dpList links ≤ linkLimit)
      (key.name = linksKey ∧
        ∀ link ∈ links, MembersAccepted ptopo.dpList LinkField.all link.members)
      (fun after => after.dpList = ptopo.dpList ∧ after.ndps = ptopo.ndps ∧
        after.nlinks = links.length ∧ NamesListed after)
      (parseLinksMember key (.array place (links.map FileLink.value)) ptopo) := by
  refine ((validateKeyword_ends linksKey key).bind fun _ _ _ _ =>
    (@parseLinks_ends 0 links ptopo (Nat.zero_le _)).bind fun after _ _ ⟨only, listed⟩ =>
      Ends.ok ⟨only.dpList, only.ndps, List.length_map _, ?_⟩).imp ?_ ?_ fun _ => id
  · simp
  · exact fun _ => by simp
  · intro link isListed
    obtain ⟨j, inRange, rfl⟩ := List.mem_map.mp isListed
    have inside : j < 0 + links.length := by simpa using List.mem_range.mp inRange
    have switches := listed j (Nat.zero_le j) inside
    exact ⟨(switches .switchX rfl).resolve_left nofun, (switches .switchY rfl).resolve_left nofun⟩

end Links

/-! ## Whole files -/

section Files

variable {file : TopologyFile} {ptopo after : ParsedTopology} {member : LinksMember}
  {dpids others : List (BitVec 64)}

theorem membersAccepted_congr (same : ∀ dpid, dpid ∈ dpids ↔ dpid ∈ others)
    (fields : List LinkField) (members : List (JsonKey × FileNumber)) :
    MembersAccepted dpids fields members ↔ MembersAccepted others fields members := by
  induction fields generalizing members with
  | nil => exact Iff.rfl
  | cons field fields ih =>
    cases members with
    | nil => exact Iff.rfl
    | cons member members =>
      simp only [MembersAccepted, LinkField.Accepts, same, ih members]

theorem enteredLinks_congr (same : ∀ dpid, dpid ∈ dpids ↔ dpid ∈ others) (links : List FileLink) :
    enteredLinks dpids links = enteredLinks others links := by
  induction links with
  | nil => rfl
  | cons link links ih =>
    simp only [enteredLinks, membersAccepted_congr same, ih]

/-- A file without links: the counter of the links is not written. -/
theorem parseTopology_none_ends (absent : file.linksMember = none) :
    Ends Corrupts (file.key.name = dpsKey → enteredDps file.dps ≤ dpLimit)
      (file.key.name = dpsKey ∧ ∀ n ∈ file.dps, n.Accepted (2 ^ 64 - 1))
      (fun after => after.ndps = file.dps.length ∧ after.nlinks = ptopo.nlinks)
      (parseTopology (.ok file.tree) ptopo) := by
  rw [TopologyFile.tree, absent]
  refine ((parseDpsMember_ends file.key file.dpsPlace file.dps ptopo).bind fun after _ _ kept =>
    Ends.ok kept.2).imp ?_ ?_ fun _ => id
  · simp
  · exact fun _ => Iff.of_eq (and_true _)

theorem parseTopology_some_ends (second : file.linksMember = some member) :
    Ends Corrupts
      ((file.key.name = dpsKey → enteredDps file.dps ≤ dpLimit) ∧
        ((file.key.name = dpsKey ∧ ∀ n ∈ file.dps, n.Accepted (2 ^ 64 - 1)) →
          member.key.name = linksKey →
            enteredLinks (file.dps.map FileNumber.dpid) member.links ≤ linkLimit))
      ((file.key.name = dpsKey ∧ ∀ n ∈ file.dps, n.Accepted (2 ^ 64 - 1)) ∧
        member.key.name = linksKey ∧ ∀ link ∈ member.links,
          MembersAccepted (file.dps.map FileNumber.dpid) LinkField.all link.members)
      (fun after => after.ndps = file.dps.length ∧ after.nlinks = member.links.length ∧
        after.dpList.Pairwise (· ≤ ·) ∧ NamesListed after)
      (parseTopology (.ok file.tree) ptopo) := by
  rw [TopologyFile.tree, second]
  refine (parseDpsMember_ends file.key file.dpsPlace file.dps ptopo).bind ?_
  rintro middle - - ⟨listed, ndps, -⟩
  have same : ∀ dpid, dpid ∈ middle.dpList ↔ dpid ∈ file.dps.map FileNumber.dpid := by
    intro dpid
    rw [listed, List.mem_insertionSort]
  refine (@parseLinksMember_ends member.links middle member.key member.place).imp ?_ ?_ ?_
  · rw [enteredLinks_congr same]
  · exact fun _ => by simp only [membersAccepted_congr same]
  · rintro after ⟨sameDps, sameNdps, counted, names⟩
    rw [sameDps, listed]
    exact ⟨sameNdps.trans ndps, counted, List.pairwise_insertionSort _ _, names⟩

/-- The parser fills the structure as given just if it is safe and its counters are right where
the file is accepted. -/
theorem FillsAsGiven.iff_of_ends {counted : Prop} (ends : Ends Corrupts safe accepted
      (fun after => after.ndps = file.dps.length ∧ after.nlinks = file.linkCount ↔ counted)
      (parseTopology (.ok file.tree) ptopo)) :
    FillsAsGiven file ptopo ↔ safe ∧ (accepted → counted) := by
  unfold FillsAsGiven
  cases parsed : parseTopology (.ok file.tree) ptopo with
  | error failure =>
    rw [parsed] at ends
    obtain ⟨corrupts, notBoth⟩ := ends
    simp only [Corrupts] at corrupts
    simp only [ne_eq, Except.error.injEq, reduceCtorEq, false_implies, implies_true, and_true]
    tauto
  | ok after =>
    rw [parsed] at ends
    obtain ⟨isSafe, isAccepted, counts⟩ := ends
    simp [isSafe, isAccepted, counts]

/-- The parser writes only inside its arrays and counts what the file lists, exactly if what
it reads of the file fits them and, for a file without links, the structure had no links
before. -/
theorem fillsAsGiven_iff_fileFits (file : TopologyFile) (ptopo : ParsedTopology) :
    FillsAsGiven file ptopo ↔ FileFits file ptopo := by
  unfold FileFits LinksFit
  cases second : file.linksMember with
  | none =>
    have ends := (@parseTopology_none_ends file ptopo second).imp Iff.rfl (fun _ => Iff.rfl)
      fun after ⟨ndps, nlinks⟩ => show
        (after.ndps = file.dps.length ∧ after.nlinks = file.linkCount ↔ ptopo.nlinks = 0) by
          rw [and_iff_right ndps, nlinks, TopologyFile.linkCount, second]
    rw [FillsAsGiven.iff_of_ends ends]
    tauto
  | some member =>
    have ends := (@parseTopology_some_ends file ptopo member second).imp Iff.rfl
      (fun _ => Iff.rfl) fun after ⟨ndps, nlinks, _⟩ => show
        (after.ndps = file.dps.length ∧ after.nlinks = file.linkCount ↔ True) by
          rw [and_iff_right ndps, nlinks, TopologyFile.linkCount, second, iff_true]
    rw [FillsAsGiven.iff_of_ends ends]
    tauto

/-- A file with links that is accepted gives sorted datapaths and links between them. -/
theorem parseTopology_wellFormed (second : file.linksMember = some member)
    (returned : parseTopology (.ok file.tree) ptopo = .ok after) :
    after.dpList.Pairwise (· ≤ ·) ∧ NamesListed after := by
  have ends := @parseTopology_some_ends file ptopo member second
  rw [returned] at ends
  exact ends.2.2.2.2

end Files

/-- A file with one datapath and no links. -/
def oneDatapath : TopologyFile where
  place := ⟨1, 0⟩
  key := ⟨dpsKey, ⟨1, 1⟩⟩
  dpsPlace := ⟨1, 8⟩
  dps := [⟨⟨1, 9⟩, ['1'], false⟩]
  linksMember := none

/-- What the stack had where `from_json` puts its structure. -/
def unclearedTopology : ParsedTopology where
  dps := fun _ => 0
  ndps := 0
  links := fun _ => ⟨0, 0, 0, 0, 0, 0⟩
  nlinks := 7

/-- Without links in the file, the old number of links is returned. -/
theorem absent_links_not_counted :
    oneDatapath.linkCount = 0 ∧
      (parseTopology (.ok oneDatapath.tree) unclearedTopology).map ParsedTopology.nlinks = .ok 7 ∧
        ¬FillsAsGiven oneDatapath unclearedTopology := by
  have returned : (parseTopology (.ok oneDatapath.tree) unclearedTopology).map
      ParsedTopology.nlinks = .ok 7 := by decide +kernel
  refine ⟨rfl, returned, ?_⟩
  rintro ⟨-, -, counted⟩
  obtain ⟨after, isAfter, seven⟩ := map_eq_ok_iff.mp returned
  have zero : after.nlinks = 0 := (counted after isAfter).2
  rw [seven] at zero
  cases zero

/-- The file with a link. -/
def linkedDatapath : TopologyFile :=
  { oneDatapath with
    linksMember := some ⟨⟨linksKey, ⟨1, 12⟩⟩, ⟨1, 20⟩, [⟨⟨1, 21⟩, LinkField.all.map fun field =>
      (⟨field.keyword, ⟨1, 22⟩⟩, ⟨⟨1, 32⟩, ['1'], false⟩)⟩], []⟩ }

/-- The file is accepted. -/
theorem parseTopology_linkedDatapath : ∃ after,
    parseTopology (.ok linkedDatapath.tree) unclearedTopology = .ok after ∧ after.nlinks = 1 ∧
      NamesListed after := by
  have returned : (parseTopology (.ok linkedDatapath.tree) unclearedTopology).map
      ParsedTopology.nlinks = .ok 1 := by decide +kernel
  obtain ⟨after, isAfter, counted⟩ := map_eq_ok_iff.mp returned
  exact ⟨after, isAfter, counted, (parseTopology_wellFormed rfl isAfter).2⟩

end Horse.Lib
