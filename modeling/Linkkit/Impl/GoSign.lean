import Linkkit.Framework.Buf

/-!
# The Go signers

`calculate_sign` of `Paho_MQTT_Guide/MqttSign.go` and of `iot.go`. A string is its
bytes, and the HMAC-SHA1 of the platform, of a key and a message, is an argument.
-/

namespace Linkkit.Impl.GoSign

/-- `fmt.Sprintf ("%02x", bytes)`. -/
def sprintf02x (bytes : List Byte) : List Byte :=
  bytes.flatMap fun b => [(Nat.digitChar (b.toNat / 16)).toNat.toUInt8, (Nat.digitChar (b.toNat % 16)).toNat.toUInt8]

/-- `AuthInfo`. -/
structure AuthInfo where
  password : List Byte
  username : List Byte
  mqttClientId : List Byte
deriving DecidableEq

/-- `AuthInfo` of `iot.go`. -/
structure BrokerAuthInfo extends AuthInfo where
  brokerUrl : List Byte
deriving DecidableEq

section

variable (hmacSha1 : List Byte → List Byte → List Byte)

/-- `raw_passwd`. -/
def rawPasswd (clientId productKey deviceName timeStamp : List Byte) : List Byte :=
  ascii "clientId" ++ clientId ++ ascii "deviceName" ++ deviceName ++ ascii "productKey" ++ productKey ++
    ascii "timestamp" ++ timeStamp

/-- What both functions compute, with the text `v` in `MQTTClientId`. -/
def authOf (v : String) (clientId productKey deviceName deviceSecret timeStamp : List Byte) : AuthInfo where
  password := sprintf02x (hmacSha1 deviceSecret (rawPasswd clientId productKey deviceName timeStamp))
  username := deviceName ++ ascii "&" ++ productKey
  mqttClientId := clientId ++ ascii v ++ timeStamp ++ ascii "|"

/-- `calculate_sign` of `MqttSign.go`. -/
def calculateSign : (clientId productKey deviceName deviceSecret timeStamp : List Byte) → AuthInfo :=
  authOf hmacSha1 "|securemode=2,_v=paho-go-1.0.0,signmethod=hmacsha1,timestamp="

/-- `calculate_sign` of `iot.go`. -/
def calculateSignIot (clientId productKey deviceName deviceSecret timeStamp : List Byte) : BrokerAuthInfo where
  toAuthInfo := authOf hmacSha1 "|securemode=2,_v=sdk-go-1.0.0,signmethod=hmacsha1,timestamp=" clientId productKey
    deviceName deviceSecret timeStamp
  brokerUrl := ascii "tls://" ++ productKey ++ ascii ".iot-as-mqtt.cn-shanghai.aliyuncs.com:1883"

end

end Linkkit.Impl.GoSign
