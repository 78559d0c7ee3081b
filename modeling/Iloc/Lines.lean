namespace Iloc

def unlines (entries : List String) : String := String.join (entries.map (· ++ "\n"))

end Iloc
