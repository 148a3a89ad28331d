import ConfigShape.Raw.Basic
import ConfigShape.Yaml.Basic

namespace ConfigShape.Raw

def numberOfYaml : YamlNumber → Except ShapeFault Number
  | .int i => .ok (.int i)
  | .float d => .ok (.float d)
  | n => .error (.unrepresentableNumber n.text)

/-- A number as a key: the index it is equal to, if it is below 2^63 in magnitude or an integer
that fits a signed word, else its text. -/
def keyOfNumber (n : YamlNumber) : RawKey :=
  match n with
  | .int i => if i.val < 0x8000_0000_0000_0000 then .index i.val else .name n.text
  | .float d =>
    match d.toInt? with
    | some i => if i.natAbs < 0x8000_0000_0000_0000 then .index i else .name n.text
    | none => .name n.text
  | _ => .name n.text

def keyOfYaml (path : String) : Yaml → Except ShapeFault RawKey
  | .null => .ok (.name "")
  | .bool b => .ok (.index (if b then 1 else 0))
  | .number n => .ok (keyOfNumber n)
  | .string s => .ok (RawKey.ofName s)
  | .tagged _ v => keyOfYaml path v
  | .seq _ => .error (.unsupportedKey path "sequence")
  | .map _ => .error (.unsupportedKey path "mapping")

def put (key : RawKey) (r : Raw) : List (RawKey × Raw) → List (RawKey × Raw)
  | [] => [(key, r)]
  | (k, s) :: rest => if k = key then (k, r) :: rest else (k, s) :: put key r rest

mutual
/-- The tree of a value whose place is `path`. The first fault in the order of the document is
reported, a key before its value. -/
def ofYamlAt (path : String) : Yaml → Except ShapeFault Raw
  | .null => .ok (.scalar .null)
  | .bool b => .ok (.scalar (.bool b))
  | .number n => do .ok (.scalar (.number (← numberOfYaml n)))
  | .string s => .ok (.scalar (.string s))
  | .seq items => do .ok (.container (← ofYamlItems path 0 items))
  | .map es => do .ok (.container (← ofYamlEntries path [] es))
  | .tagged _ v => ofYamlAt path v

def ofYamlItems (path : String) (i : Int) : List Yaml → Except ShapeFault (List (RawKey × Raw))
  | [] => .ok []
  | v :: rest => do
    let r ← ofYamlAt (childPath path (.index i)) v
    .ok ((.index i, r) :: (← ofYamlItems path (i + 1) rest))

def ofYamlEntries (path : String) (done : List (RawKey × Raw)) :
    List (Yaml × Yaml) → Except ShapeFault (List (RawKey × Raw))
  | [] => .ok done
  | (k, v) :: rest => do
    let key ← keyOfYaml path k
    let r ← ofYamlAt (childPath path key) v
    ofYamlEntries path (put key r done) rest
end

def ofYaml (v : Yaml) : Except ShapeFault Raw := ofYamlAt "$" v

end ConfigShape.Raw
