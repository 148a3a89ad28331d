namespace ConfigShape

/-- What is reported at work. An operation that reports has a companion that gives its notices from
the same arguments, so that the operation itself stays a plain function. -/
inductive Notice where
  | mixedKeys (path : String)
  | dropped (node : String)
  | wrapped (key : String)
  | aliasDropped (name target : String)
  | itemsIgnored
  | prefixMissing (path : String)
  | profileLoaded (file : String) (sections : Nat)
deriving DecidableEq, Repr

def Notice.text : Notice → String
  | .mixedKeys path => "DEBUG refusing to lift mixed-key container at " ++ path
  | .dropped node => "TRACE normalize_map: no default prefix, dropping " ++ node
  | .wrapped key => "DEBUG normalize_map_ex: wrapping map under `" ++ key ++ "`"
  | .aliasDropped name target =>
    "DEBUG alias `" ++ name ++ "` dropped, `" ++ target ++ "` is declared after it"
  | .itemsIgnored => "TRACE append: positional items cannot extend a keyed map"
  | .prefixMissing path =>
    "WARN " ++ path ++ ": map_ex without prefix_key leaves non-map values as they are"
  | .profileLoaded file sections =>
    "DEBUG loaded profile " ++ file ++ " (" ++ toString sections ++ " sections)"

end ConfigShape
